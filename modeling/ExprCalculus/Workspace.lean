import ExprCalculus.Journal

/-!
# Workspaces

A workspace holds the settings, the journal, and formulas under names.  A
formula is an expression that keeps the text it was first shown with, even if the
settings change later.  Several names may stand for one formula.
-/

namespace ExprCalculus

/-- An expression and the text it was first shown with. -/
structure Formula where
  tree : Expr Float
  text? : Option String := none

namespace Formula

/-- The text of the formula: the one it was first shown with, or else its text
under the present settings. -/
def text (settings : Settings) (formula : Formula) : String :=
  formula.text?.getD (formula.tree.render settings)

def shown (settings : Settings) (formula : Formula) : Formula :=
  { formula with text? := some (formula.text settings) }

end Formula

/-- Settings, journal and formulas with the names of their places, the latest name first. -/
structure Workspace where
  settings : Settings := .standard
  journal : Journal := {}
  formulas : Array Formula := #[]
  names : List (String × Nat) := []

namespace Workspace

def find? (workspace : Workspace) (name : String) : Option (Nat × Formula) := do
  let place ← workspace.names.lookup name
  let formula ← workspace.formulas[place]?
  return (place, formula)

/-- Lets a name stand for the formula at a place. -/
def rename (workspace : Workspace) (name : String) (place : Nat) : Workspace :=
  { workspace with names := (name, place) :: workspace.names }

def keep (workspace : Workspace) (name : String) (formula : Formula) : Workspace :=
  { workspace with formulas := workspace.formulas.push formula }.rename name
    workspace.formulas.size

def replace (workspace : Workspace) (place : Nat) (formula : Formula) : Workspace :=
  { workspace with formulas := workspace.formulas.setIfInBounds place formula }

def deliver (workspace : Workspace) (notices : List (Notice Float)) : Workspace :=
  { workspace with
    journal := notices.foldl
      (fun journal notice => journal.write (notice.report workspace.settings))
      workspace.journal }

def takeConsole (workspace : Workspace) : List String × Workspace :=
  (workspace.journal.console,
    { workspace with journal := { workspace.journal with console := [] } })

end Workspace

end ExprCalculus
