import ExprCalculus.Journal
import Mathlib.Data.List.Induction

/-!
# Delivery of reports

Places are attached when logging is set up, and the verbosity may change without them.  What
ties the two together is that outside of silence the console is attached exactly once.  So an
admitted report is written to the console once, whatever calls came before; and to the file
that the last set-up named, unless logging was set up anew to leave silence.
-/

namespace ExprCalculus

section Places

variable {verbosity : Verbosity} {file? : Option String}

theorem Place.count_console_attached :
    (attached verbosity file?).count .console = if verbosity = .silent then 0 else 1 := by
  cases verbosity <;> cases file? <;> rfl

theorem Place.count_file_attached (name : String) :
    (attached verbosity (some name)).count (.file name) = 1 := by
  cases verbosity <;> simp [attached]

end Places

namespace Journal

/-- The lines of a file; there are none if it does not exist. -/
def linesOf (journal : Journal) (name : String) : List String :=
  (journal.files.lookup name).getD []

section Writing

variable {journal : Journal} {lines : List String} {name : String}

@[simp]
theorem console_append : (journal.append name lines).console = journal.console := by
  unfold append
  split <;> rfl

@[simp]
theorem places_append : (journal.append name lines).places = journal.places := by
  unfold append
  split <;> rfl

@[simp]
theorem verbosity?_append : (journal.append name lines).verbosity? = journal.verbosity? := by
  unfold append
  split <;> rfl

theorem lookup_extended (files : List (String × List String)) (other : String) :
    (files.map fun (file, written) =>
        if file = name then (file, written ++ lines) else (file, written)).lookup other =
      (files.lookup other).map fun written =>
        if other = name then written ++ lines else written := by
  induction files with
  | nil => rfl
  | cons first rest ih =>
      obtain ⟨file, written⟩ := first
      have kept : (if file = name then (file, written ++ lines) else (file, written)) =
          (file, if file = name then written ++ lines else written) := by
        split <;> rfl
      rw [List.map_cons]
      dsimp only
      rw [kept, List.lookup_cons, List.lookup_cons]
      by_cases isFile : other = file
      · subst isFile
        rw [beq_self_eq_true]
        rfl
      · rw [beq_false_of_ne isFile]
        exact ih

/-- Appending to one file leaves the others alone. -/
theorem linesOf_append (other : String) :
    (journal.append name lines).linesOf other =
      if other = name then journal.linesOf other ++ lines else journal.linesOf other := by
  unfold append linesOf
  by_cases exists? : journal.files.any (·.1 = name) = true
  · rw [if_pos exists?]
    dsimp only
    rw [lookup_extended]
    cases found : journal.files.lookup other with
    | some written => by_cases isName : other = name <;> simp [isName]
    | none =>
        have missing : other ≠ name := by
          rintro rfl
          obtain ⟨⟨file, written⟩, member, isFile⟩ := List.any_eq_true.mp exists?
          have absent : (other != file) = true := List.lookup_eq_none_iff.mp found _ member
          exact bne_iff_ne.mp absent (of_decide_eq_true isFile).symm
        simp [missing]
  · rw [if_neg exists?, List.lookup_append]
    by_cases isName : other = name
    · subst isName
      have absent : journal.files.lookup other = none := by
        rw [List.lookup_eq_none_iff]
        intro file member
        have distinct : ¬ file.1 = other := fun same =>
          exists? (List.any_eq_true.mpr ⟨file, member, decide_eq_true same⟩)
        simpa using Ne.symm distinct
      simp [absent]
    · simp [isName, List.lookup_cons, beq_false_of_ne isName]

@[simp]
theorem places_deliver (place : Place) : (deliver lines journal place).places = journal.places := by
  cases place with
  | console | nowhere => rfl
  | file name => exact places_append

@[simp]
theorem verbosity?_deliver (place : Place) :
    (deliver lines journal place).verbosity? = journal.verbosity? := by
  cases place with
  | console | nowhere => rfl
  | file name => exact verbosity?_append

variable (places : List Place)

/-- What a delivery to any place leaves alone stays the same after several deliveries. -/
theorem foldl_deliver_keeps {β : Type} (part : Journal → β)
    (kept : ∀ journal place, part (deliver lines journal place) = part journal) :
    part (places.foldl (deliver lines) journal) = part journal := by
  induction places generalizing journal with
  | nil => rfl
  | cons place rest ih => rw [List.foldl_cons, ih, kept]

/-- The console gets the lines as often as it is attached. -/
theorem console_foldl_deliver :
    (places.foldl (deliver lines) journal).console =
      journal.console ++ (List.replicate (places.count .console) lines).flatten := by
  induction places generalizing journal with
  | nil => simp
  | cons place rest ih =>
      rw [List.foldl_cons, ih]
      cases place with
      | console => simp [deliver, List.replicate_succ]
      | file name => simp [deliver]
      | nowhere => simp [deliver]

/-- A file gets the lines as often as it is attached. -/
theorem linesOf_foldl_deliver (name : String) :
    (places.foldl (deliver lines) journal).linesOf name =
      journal.linesOf name ++ (List.replicate (places.count (.file name)) lines).flatten := by
  induction places generalizing journal with
  | nil => simp
  | cons place rest ih =>
      rw [List.foldl_cons, ih]
      cases place with
      | console => simp [deliver, linesOf]
      | nowhere => simp [deliver]
      | file other =>
          rw [deliver, linesOf_append]
          by_cases same : name = other
          · subst same
            simp [List.replicate_succ]
          · simp [same, Ne.symm same]

end Writing

section Ready

variable (journal : Journal)

theorem verbosity_ready : journal.ready.verbosity = journal.verbosity := by
  unfold ready
  split
  next unknown =>
    unfold verbosity
    rw [unknown]
    rfl
  next => rfl

theorem console_ready : journal.ready.console = journal.console := by
  unfold ready
  split <;> rfl

theorem linesOf_ready (name : String) : journal.ready.linesOf name = journal.linesOf name := by
  unfold ready
  split <;> rfl

variable {journal} (report : Report)

theorem places_write : (journal.write report).places = journal.ready.places := by
  unfold write
  dsimp only
  split
  · exact foldl_deliver_keeps _ (·.places) fun _ => places_deliver
  · rfl

theorem verbosity?_write : (journal.write report).verbosity? = journal.ready.verbosity? := by
  unfold write
  dsimp only
  split
  · exact foldl_deliver_keeps _ (·.verbosity?) fun _ => verbosity?_deliver
  · rfl

theorem write_of_admits (admits : report.needed.rank ≤ journal.verbosity.rank) :
    journal.write report =
      journal.ready.places.foldl (deliver (Text.lines report.line)) journal.ready := by
  rw [write, if_pos]
  rw [verbosity_ready]
  exact decide_eq_true admits

theorem write_of_below (below : journal.verbosity.rank < report.needed.rank) :
    journal.write report = journal.ready := by
  rw [write, if_neg]
  rw [verbosity_ready, Bool.not_eq_true]
  exact decide_eq_false (Nat.not_le.mpr below)

theorem console_write_of_admits (admits : report.needed.rank ≤ journal.verbosity.rank) :
    (journal.write report).console =
      journal.console ++ (List.replicate (journal.ready.places.count .console)
        (Text.lines report.line)).flatten := by
  rw [write_of_admits report admits, console_foldl_deliver, console_ready]

theorem console_write_of_below (below : journal.verbosity.rank < report.needed.rank) :
    (journal.write report).console = journal.console := by
  rw [write_of_below report below, console_ready]

theorem linesOf_write_of_admits (name : String)
    (admits : report.needed.rank ≤ journal.verbosity.rank) :
    (journal.write report).linesOf name =
      journal.linesOf name ++ (List.replicate (journal.ready.places.count (.file name))
        (Text.lines report.line)).flatten := by
  rw [write_of_admits report admits, linesOf_foldl_deliver, linesOf_ready]

theorem linesOf_write_of_below (name : String)
    (below : journal.verbosity.rank < report.needed.rank) :
    (journal.write report).linesOf name = journal.linesOf name := by
  rw [write_of_below report below, linesOf_ready]

end Ready

section Calls

/-- What a program does with its journal. -/
inductive Call where
  | setUp (verbosity : Verbosity) (file? : Option String)
  | setVerbosity (verbosity : Verbosity)
  | write (report : Report)

namespace Call

def apply (journal : Journal) : Call → Journal
  | setUp verbosity file? => journal.setUp verbosity file?
  | setVerbosity verbosity => journal.setVerbosity verbosity
  | write report => journal.write report

def verbosity? : Call → Option Verbosity
  | setUp verbosity _ => some verbosity
  | setVerbosity verbosity => some verbosity
  | write _ => none

end Call

/-- The journal after some calls, before which logging was not set up. -/
def run (calls : List Call) : Journal :=
  calls.foldl Call.apply {}

/-- The verbosity that was requested last, and silence if none was. -/
def requested (calls : List Call) : Verbosity :=
  (calls.filterMap Call.verbosity?).getLast?.getD .silent

theorem requested_concat (calls : List Call) (call : Call) :
    requested (calls ++ [call]) = call.verbosity?.getD (requested calls) := by
  unfold requested
  rw [List.filterMap_append, List.getLast?_append]
  cases call <;> rfl

/-- What ties the places of a journal to the verbosity that was requested last: outside of
silence the console is attached, and it is never attached twice. -/
structure Tracks (journal : Journal) (level : Verbosity) : Prop where
  verbosity : journal.verbosity = level
  attached : level ≠ .silent → journal.places.count .console = 1
  once : journal.places.count .console ≤ 1

namespace Tracks

variable {journal : Journal} {level : Verbosity}

theorem setUp (verbosity : Verbosity) (file? : Option String) :
    Tracks (journal.setUp verbosity file?) verbosity where
  verbosity := rfl
  attached loud := Place.count_console_attached.trans (if_neg loud)
  once := by
    change (Place.attached verbosity file?).count .console ≤ 1
    rw [Place.count_console_attached]
    split
    · exact Nat.zero_le 1
    · exact Nat.le_refl 1

theorem ready (tracks : Tracks journal level) : Tracks journal.ready level := by
  unfold Journal.ready
  split
  next unknown =>
    have silent : level = .silent := by
      rw [← tracks.verbosity, Journal.verbosity, unknown]
      rfl
    rw [silent]
    exact setUp .silent none
  next => exact tracks

theorem setVerbosity (tracks : Tracks journal level) (verbosity : Verbosity) :
    Tracks (journal.setVerbosity verbosity) verbosity := by
  unfold Journal.setVerbosity
  split
  next keeps =>
    unfold keepsPlaces at keeps
    split at keeps
    next => cases keeps
    next current known =>
      have loud : level ≠ .silent := by
        rw [← tracks.verbosity, Journal.verbosity, known]
        exact of_decide_eq_true keeps
      exact ⟨rfl, fun _ => tracks.attached loud, tracks.once⟩
  next => exact setUp verbosity none

theorem write (tracks : Tracks journal level) (report : Report) :
    Tracks (journal.write report) level := by
  have ready := tracks.ready
  refine ⟨?_, ?_, ?_⟩
  · rw [Journal.verbosity, verbosity?_write]
    exact ready.verbosity
  · rw [places_write]
    exact ready.attached
  · rw [places_write]
    exact ready.once

/-- Every call keeps the console attached as the verbosity demands. -/
theorem apply (tracks : Tracks journal level) (call : Call) :
    Tracks (call.apply journal) (call.verbosity?.getD level) := by
  cases call with
  | setUp verbosity file? => exact setUp verbosity file?
  | setVerbosity verbosity => exact tracks.setVerbosity verbosity
  | write report => exact tracks.write report

end Tracks

theorem tracks_run (calls : List Call) : Tracks (run calls) (requested calls) := by
  induction calls using List.reverseRecOn with
  | nil => exact ⟨rfl, fun loud => absurd rfl loud, Nat.zero_le 1⟩
  | append_singleton calls call ih =>
      rw [run, List.foldl_append, requested_concat]
      exact ih.apply call

/-- None of the calls sets logging up, and none changes the verbosity in silence, if the
verbosity is the given one before them. -/
def LeavesPlaces (level : Verbosity) : List Call → Prop
  | [] => True
  | .setUp _ _ :: _ => False
  | .setVerbosity next :: rest => level ≠ .silent ∧ LeavesPlaces next rest
  | .write _ :: rest => LeavesPlaces level rest

theorem ready_of_known {journal : Journal} {level : Verbosity}
    (known : journal.verbosity? = some level) : journal.ready = journal := by
  unfold ready
  rw [known]

/-- Calls that keep the places leave them attached for the next report. -/
theorem places_of_leavesPlaces {journal : Journal} {level : Verbosity} {calls : List Call}
    (known : journal.verbosity? = some level) (keeps : LeavesPlaces level calls) :
    (calls.foldl Call.apply journal).ready.places = journal.places := by
  -- The verbosity is known after each call, so no report sets logging up again.
  induction calls generalizing journal level with
  | nil => rw [List.foldl_nil, ready_of_known known]
  | cons call rest ih =>
      rw [List.foldl_cons]
      cases call with
      | setUp verbosity file? => exact keeps.elim
      | setVerbosity next =>
          have changed : journal.setVerbosity next = { journal with verbosity? := some next } := by
            rw [setVerbosity, if_pos]
            rw [keepsPlaces, known]
            exact decide_eq_true keeps.1
          rw [Call.apply, changed]
          exact ih rfl keeps.2
      | write report =>
          rw [Call.apply, ih ((verbosity?_write report).trans ?_) keeps, places_write,
            ready_of_known known]
          rw [ready_of_known known, known]

/-- The places of the last set-up are attached as long as the calls after it leave them. -/
theorem places_ready_run {before after : List Call} {verbosity : Verbosity}
    {file? : Option String} (keeps : LeavesPlaces verbosity after) :
    (run (before ++ .setUp verbosity file? :: after)).ready.places =
      Place.attached verbosity file? := by
  rw [run, List.foldl_append, List.foldl_cons]
  exact places_of_leavesPlaces rfl keeps

end Calls

/-- After any calls, a report is written to the console once if the verbosity that was requested
last is neither silence nor below the one that the report needs, and not at all if it is below;
it is never written there twice.  If the last set-up named a file, and the verbosity was not
changed in silence since, the report is written to the file once or not at all likewise. -/
theorem report_delivered_once (calls : List Call) (report : Report) :
    let journal := run calls
    let written := journal.write report
    let level := requested calls
    let lines := Text.lines report.line
    (report.needed.rank ≤ level.rank → level ≠ .silent →
      written.console = journal.console ++ lines) ∧
    (level.rank < report.needed.rank → written.console = journal.console) ∧
    (written.console = journal.console ∨ written.console = journal.console ++ lines) ∧
    ∀ before verbosity name after, calls = before ++ .setUp verbosity (some name) :: after →
      LeavesPlaces verbosity after →
      (report.needed.rank ≤ level.rank →
        written.linesOf name = journal.linesOf name ++ lines) ∧
      (level.rank < report.needed.rank → written.linesOf name = journal.linesOf name) := by
  intro journal written level lines
  have tracks : Tracks journal level := tracks_run calls
  have isLevel : journal.verbosity = level := tracks.verbosity
  have ready : Tracks journal.ready level := tracks.ready
  refine ⟨fun admits loud => ?_, fun below => ?_, ?_,
    fun before verbosity name after isRun keeps => ⟨fun admits => ?_, fun below => ?_⟩⟩
  · rw [console_write_of_admits report (isLevel ▸ admits), ready.attached loud]
    simp [lines]
  · exact console_write_of_below report (isLevel ▸ below)
  · rcases Nat.lt_or_ge level.rank report.needed.rank with below | admits
    · exact .inl (console_write_of_below report (isLevel ▸ below))
    · rw [console_write_of_admits report (isLevel ▸ admits)]
      rcases Nat.le_one_iff_eq_zero_or_eq_one.mp ready.once with none | one
      · simp [none]
      · simp [one, lines]
  · have places : journal.ready.places = Place.attached verbosity (some name) := by
      change (run calls).ready.places = _
      rw [isRun, places_ready_run keeps]
    rw [linesOf_write_of_admits report name (isLevel ▸ admits), places,
      Place.count_file_attached]
    simp [lines]
  · exact linesOf_write_of_below report name (isLevel ▸ below)

/-- Logging that is set up with a file, lowered to warnings and raised again writes a warning
once to the console and once to the file. -/
theorem report_delivered_once_lowered :
    let calls : List Call := [.setVerbosity .verbose, .setUp .moderate (some "trace.log"),
      .setVerbosity .minimal, .write (.info "start" .moderate), .setVerbosity .detailed]
    let report := Report.warning "careful"
    let journal := run calls
    let written := journal.write report
    requested calls = .detailed ∧
      written.console = journal.console ++ ["WARNING - careful"] ∧
      written.linesOf "trace.log" = journal.linesOf "trace.log" ++ ["WARNING - careful"] := by
  intro calls report journal written
  have level : requested calls = .detailed := rfl
  have line : Text.lines report.line = ["WARNING - careful"] := by decide +kernel
  have admits : report.needed.rank ≤ (requested calls).rank := by decide
  obtain ⟨onConsole, -, -, inFile⟩ := report_delivered_once calls report
  obtain ⟨isWritten, -⟩ := inFile [.setVerbosity .verbose] .moderate "trace.log"
    [.setVerbosity .minimal, .write (.info "start" .moderate), .setVerbosity .detailed] rfl
    ⟨by decide, by decide, trivial⟩
  rw [← line]
  exact ⟨level, onConsole admits (by decide), isWritten admits⟩

/-- In silence a report that needs no more than silence is admitted, but the console is not
attached; and the file of the last set-up is lost when the verbosity is changed in silence. -/
theorem silent_report_not_delivered :
    (let report := Report.info "m" .silent
      let journal := run []
      report.needed.rank ≤ (requested []).rank ∧
        (journal.write report).console ≠ journal.console ++ Text.lines report.line) ∧
    (let calls : List Call := [.setUp .moderate (some "trace.log"), .setVerbosity .silent,
        .setVerbosity .detailed]
      let report := Report.warning "careful"
      let journal := run calls
      report.needed.rank ≤ (requested calls).rank ∧
        (journal.write report).linesOf "trace.log" ≠
          journal.linesOf "trace.log" ++ Text.lines report.line) := by
  decide +kernel

end Journal

end ExprCalculus
