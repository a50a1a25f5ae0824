import ExprCalculus.Notice
import ExprCalculus.Text.Line

/-!
# The journal

Reports are written to the places that are attached, as far as the current verbosity
admits them.  Places are attached only when logging is set up; changing the verbosity
later leaves them as they are, except that changing it in silence sets logging up anew
without a file.
-/

namespace ExprCalculus

/-- A place that reports go to; `nowhere` stands in when there is no other. -/
inductive Place where
  | console
  | file (name : String)
  | nowhere
deriving DecidableEq, Repr

/-- The places that are attached when logging is set up: the console stays out of it
only in silence. -/
def Place.attached (verbosity : Verbosity) (file? : Option String) : List Place :=
  let consoles := if verbosity = .silent then [] else [Place.console]
  match consoles ++ (file?.map Place.file).toList with
  | [] => [.nowhere]
  | places => places

/-- The verbosity once it is known, the places that reports go to, the lines on the
console, and the lines of each file in the order in which the files were opened. -/
structure Journal where
  verbosity? : Option Verbosity := none
  places : List Place := []
  console : List String := []
  files : List (String × List String) := []
deriving DecidableEq, Repr

namespace Journal

def defaultFile : String :=
  "symbolic_math_TIME.log"

/-- The verbosity at present; nothing is reported until logging is set up. -/
def verbosity (journal : Journal) : Verbosity :=
  journal.verbosity?.getD .silent

/-- Appends lines to a file, which is created if it does not exist. -/
def append (journal : Journal) (name : String) (lines : List String) : Journal :=
  if journal.files.any (·.1 = name) then
    { journal with files := journal.files.map fun (other, written) =>
        if other = name then (other, written ++ lines) else (other, written) }
  else
    { journal with files := journal.files ++ [(name, lines)] }

/-- Sets logging up, with a file if one is named.  The places attached before are
detached. -/
def setUp (journal : Journal) (verbosity : Verbosity) (file? : Option String) :
    Journal :=
  let opened := match file? with
    | some name => journal.append name []
    | none => journal
  { opened with
    verbosity? := some verbosity
    places := Place.attached verbosity file? }

/-- Whether a change of verbosity keeps the places that reports go to. -/
def keepsPlaces (journal : Journal) : Bool :=
  match journal.verbosity? with
  | none => false
  | some verbosity => verbosity ≠ .silent

def setVerbosity (journal : Journal) (verbosity : Verbosity) : Journal :=
  if journal.keepsPlaces then
    { journal with verbosity? := some verbosity }
  else
    journal.setUp verbosity none

/-- The journal with logging set up in silence if it was not set up before. -/
def ready (journal : Journal) : Journal :=
  match journal.verbosity? with
  | none => journal.setUp .silent none
  | some _ => journal

def deliver (lines : List String) (journal : Journal) : Place → Journal
  | .console => { journal with console := journal.console ++ lines }
  | .file name => journal.append name lines
  | .nowhere => journal

/-- Writes a report to every place, if the verbosity admits it. -/
def write (journal : Journal) (report : Report) : Journal :=
  let ready := journal.ready
  if ready.verbosity.admits report.needed then
    ready.places.foldl (deliver (Text.lines report.line)) ready
  else
    ready

def filesByName (journal : Journal) : List (String × List String) :=
  journal.files.mergeSort fun first second => first.1 ≤ second.1

end Journal

end ExprCalculus
