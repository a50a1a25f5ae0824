import ExprCalculus.Evaluation.Doubles
import ExprCalculus.Expr.Substitution
import Mathlib.Logic.Function.Basic

/-!
# Evaluation after a substitution

A variable may be replaced by an expression or be bound to the value of that expression:
both ways an expression without unknown integrals has the same outcome.  Substitution keeps
the parts in which nothing is replaced, and builds an expression anew as soon as one of its
parts is new.
-/

namespace ExprCalculus

namespace Expr

variable {α : Type} {name : String} {replacement : Expr α}

section Sharing

def combineNew {β γ δ : Type} (combine : β → γ → δ) (first : β) (second : γ) :
    Option β → Option γ → Option δ
  | none, none => none
  | newFirst, newSecond => some (combine (newFirst.getD first) (newSecond.getD second))

section Combination

variable {β γ δ : Type} {combine : β → γ → δ} {first : β} {second : γ} {newFirst : Option β}
  {newSecond : Option γ}

/-- Nothing is put together only if both parts stay what they were. -/
theorem combineNew_eq_none :
    combineNew combine first second newFirst newSecond = none ↔
      newFirst = none ∧ newSecond = none := by
  cases newFirst <;> cases newSecond <;> simp [combineNew]

/-- A part that is new is never dropped for the sake of one that is not. -/
theorem getD_combineNew :
    (combineNew combine first second newFirst newSecond).getD (combine first second) =
      combine (newFirst.getD first) (newSecond.getD second) := by
  cases newFirst <;> cases newSecond <;> rfl

end Combination

mutual

/-- The expression that a substitution builds, or none if it builds nothing and keeps the
expression itself. -/
def rebuilt? (name : String) (replacement : Expr α) : Expr α → Option (Expr α)
  | const _ => none
  | var other => if other = name then some replacement else none
  | unary operator operand => (rebuilt? name replacement operand).map (unary operator)
  | binary operator left right =>
      combineNew (binary operator) left right (rebuilt? name replacement left)
        (rebuilt? name replacement right)
  | call function first others =>
      combineNew (call function) first others (rebuilt? name replacement first)
        (rebuiltAll? name replacement others)
  | integral integrand bound =>
      if bound = name then
        some (integral ((rebuilt? name replacement integrand).getD integrand)
          (renamedBound name bound replacement))
      else
        (rebuilt? name replacement integrand).map (integral · bound)

def rebuiltAll? (name : String) (replacement : Expr α) :
    List (Expr α) → Option (List (Expr α))
  | [] => none
  | expression :: rest =>
      combineNew List.cons expression rest (rebuilt? name replacement expression)
        (rebuiltAll? name replacement rest)

end

theorem renamedBound_of_ne {bound : String} (distinct : bound ≠ name) :
    renamedBound name bound replacement = bound := by
  cases replacement <;> simp [renamedBound, distinct]

mutual

/-- Keeping the parts without a replacement makes no difference to the result. -/
theorem getD_rebuilt? (expression : Expr α) :
    (rebuilt? name replacement expression).getD expression =
      substitute name replacement expression := by
  cases expression with
  | const _ => rfl
  | var other =>
      rw [rebuilt?, substitute]
      split <;> rfl
  | unary operator operand =>
      rw [rebuilt?, substitute, ← getD_rebuilt? operand]
      cases rebuilt? name replacement operand <;> rfl
  | binary operator left right =>
      rw [rebuilt?, substitute, getD_combineNew, getD_rebuilt? left, getD_rebuilt? right]
  | call function first others =>
      rw [rebuilt?, substitute, getD_combineNew, getD_rebuilt? first, getD_rebuiltAll? others]
  | integral integrand bound =>
      rw [rebuilt?, substitute, ← getD_rebuilt? integrand]
      split
      next => rfl
      next distinct =>
        rw [renamedBound_of_ne distinct]
        cases rebuilt? name replacement integrand <;> rfl

theorem getD_rebuiltAll? (expressions : List (Expr α)) :
    (rebuiltAll? name replacement expressions).getD expressions =
      substituteAll name replacement expressions := by
  match expressions with
  | [] => rfl
  | expression :: rest =>
      rw [rebuiltAll?, substituteAll, getD_combineNew, getD_rebuilt? expression,
        getD_rebuiltAll? rest]

end

mutual

/-- An expression is kept exactly if the variable does not occur in it. -/
theorem rebuilt?_eq_none_iff {expression : Expr α} :
    rebuilt? name replacement expression = none ↔ name ∉ expression.occurrences := by
  cases expression with
  | const _ => simp [rebuilt?, occurrences]
  | var other => simp [rebuilt?, occurrences, eq_comm]
  | unary _ operand =>
      rw [rebuilt?, occurrences, Option.map_eq_none_iff]
      exact rebuilt?_eq_none_iff
  | binary _ left right =>
      rw [rebuilt?, occurrences, combineNew_eq_none, List.mem_append, not_or]
      exact and_congr rebuilt?_eq_none_iff rebuilt?_eq_none_iff
  | call _ first others =>
      rw [rebuilt?, occurrences, combineNew_eq_none, List.mem_append, not_or]
      exact and_congr rebuilt?_eq_none_iff rebuiltAll?_eq_none_iff
  | integral integrand bound =>
      rw [rebuilt?, occurrences, List.mem_append, List.mem_singleton, not_or]
      split
      next same => exact iff_of_false (Option.some_ne_none _) fun absent => absent.2 same.symm
      next distinct =>
        rw [Option.map_eq_none_iff, and_iff_left (Ne.symm distinct)]
        exact rebuilt?_eq_none_iff

theorem rebuiltAll?_eq_none_iff {expressions : List (Expr α)} :
    rebuiltAll? name replacement expressions = none ↔ name ∉ occurrencesAll expressions := by
  match expressions with
  | [] => simp [rebuiltAll?, occurrencesAll]
  | expression :: rest =>
      rw [rebuiltAll?, occurrencesAll, combineNew_eq_none, List.mem_append, not_or]
      exact and_congr rebuilt?_eq_none_iff rebuiltAll?_eq_none_iff

end

/-- Nothing is replaced in an expression in which the variable does not occur. -/
theorem substitute_of_not_mem {expression : Expr α} (absent : name ∉ expression.occurrences) :
    substitute name replacement expression = expression := by
  rw [← getD_rebuilt?, rebuilt?_eq_none_iff.mpr absent]
  rfl

end Sharing

section Variables

mutual

/-- The variables after a substitution in an expression without unknown integrals are the
other variables of the expression, and those of the replacement if there was something to
replace. -/
theorem mem_occurrences_substitute {expression : Expr α} {other : String}
    (markerless : expression.hasMarker = false) :
    other ∈ (substitute name replacement expression).occurrences ↔
      (other ∈ expression.occurrences ∧ other ≠ name) ∨
        (name ∈ expression.occurrences ∧ other ∈ replacement.occurrences) := by
  cases expression with
  | const _ => simp [substitute, occurrences]
  | var present =>
      rw [substitute]
      split
      next same => subst same; simp [occurrences]
      next distinct =>
        rw [occurrences, List.mem_singleton, List.mem_singleton]
        simp only [Ne.symm distinct, false_and, or_false]
        exact ⟨fun same => ⟨same, same ▸ distinct⟩, And.left⟩
  | unary _ operand =>
      rw [substitute, occurrences, occurrences]
      exact mem_occurrences_substitute markerless
  | binary _ left right =>
      rw [hasMarker, Bool.or_eq_false_iff] at markerless
      rw [substitute, occurrences, occurrences, List.mem_append, List.mem_append, List.mem_append,
        mem_occurrences_substitute markerless.1, mem_occurrences_substitute markerless.2,
        or_and_right, or_and_right, or_or_or_comm]
  | call _ first others =>
      rw [hasMarker, Bool.or_eq_false_iff] at markerless
      rw [substitute, occurrences, occurrences, List.mem_append, List.mem_append, List.mem_append,
        mem_occurrences_substitute markerless.1, mem_occurrencesAll_substitute markerless.2,
        or_and_right, or_and_right, or_or_or_comm]
  | integral _ _ => cases markerless

theorem mem_occurrencesAll_substitute {expressions : List (Expr α)} {other : String}
    (markerless : hasMarkerAny expressions = false) :
    other ∈ occurrencesAll (substituteAll name replacement expressions) ↔
      (other ∈ occurrencesAll expressions ∧ other ≠ name) ∨
        (name ∈ occurrencesAll expressions ∧ other ∈ replacement.occurrences) := by
  match expressions with
  | [] => simp [substituteAll, occurrencesAll]
  | expression :: rest =>
      rw [hasMarkerAny, Bool.or_eq_false_iff] at markerless
      rw [substituteAll, occurrencesAll, occurrencesAll, List.mem_append, List.mem_append,
        List.mem_append, mem_occurrences_substitute markerless.1,
        mem_occurrencesAll_substitute markerless.2, or_and_right, or_and_right, or_or_or_comm]

end

theorem mem_variableNames {expression : Expr α} :
    name ∈ expression.variableNames ↔ name ∈ expression.occurrences := by
  rw [variableNames, List.mem_mergeSort, List.mem_eraseDups]

end Variables

section Values

variable {arithmetic : Arithmetic α} {functions : FunctionEnvironment α}
  {bindings : String → Option α} {value : α}

mutual

/-- The value of the replacement stands for the replacement. -/
theorem evaluate_substitute {expression : Expr α}
    (valued : replacement.evaluate arithmetic functions bindings = .ok value)
    (markerless : expression.hasMarker = false) :
    (substitute name replacement expression).evaluate arithmetic functions bindings =
      expression.evaluate arithmetic functions (Function.update bindings name (some value)) := by
  cases expression with
  | const _ => rfl
  | var other =>
      rw [substitute, evaluate]
      split
      next same => rw [same, Function.update_self, valued]
      next distinct => rw [Function.update_of_ne distinct, evaluate]
  | unary _ operand =>
      have inOperand : operand.hasMarker = false := markerless
      rw [substitute, evaluate, evaluate, evaluate_substitute valued inOperand]
  | binary _ left right =>
      rw [hasMarker, Bool.or_eq_false_iff] at markerless
      rw [substitute, evaluate, evaluate, evaluate_substitute valued markerless.1,
        evaluate_substitute valued markerless.2]
  | call _ first others =>
      rw [hasMarker, Bool.or_eq_false_iff] at markerless
      rw [substitute, evaluate, evaluate, evaluate_substitute valued markerless.1,
        evaluateAll_substituteAll valued markerless.2]
  | integral _ _ => cases markerless

theorem evaluateAll_substituteAll {expressions : List (Expr α)}
    (valued : replacement.evaluate arithmetic functions bindings = .ok value)
    (markerless : hasMarkerAny expressions = false) :
    evaluateAll arithmetic functions bindings (substituteAll name replacement expressions) =
      evaluateAll arithmetic functions (Function.update bindings name (some value))
        expressions := by
  match expressions with
  | [] => rfl
  | expression :: rest =>
      rw [hasMarkerAny, Bool.or_eq_false_iff] at markerless
      rw [substituteAll, evaluateAll, evaluateAll, evaluate_substitute valued markerless.1,
        evaluateAll_substituteAll valued markerless.2]

end

end Values

end Expr

open ExprCalculus.Expr

/-- An expression has the same outcome after a variable is replaced by an expression as with
the variable bound to the value of that expression.  If the variable occurs, the variables
afterwards are the other ones and those of the replacement; if not, nothing is built and the
expression itself is kept.  Keeping parts never loses a replacement. -/
theorem substitution_evaluates_as_binding {α : Type} (arithmetic : Arithmetic α)
    (functions : FunctionEnvironment α) (bindings : String → Option α) (name : String)
    {replacement expression : Expr α} {value : α}
    (markerless : expression.hasMarker = false)
    (valued : replacement.evaluate arithmetic functions bindings = .ok value) :
    (substitute name replacement expression).evaluate arithmetic functions bindings =
        expression.evaluate arithmetic functions (Function.update bindings name (some value)) ∧
      (name ∈ expression.variableNames →
        ∀ other, other ∈ (substitute name replacement expression).variableNames ↔
          (other ∈ expression.variableNames ∧ other ≠ name) ∨
            other ∈ replacement.variableNames) ∧
      (name ∉ expression.variableNames →
        rebuilt? name replacement expression = none ∧
          substitute name replacement expression = expression) ∧
      substitute name replacement expression =
        (rebuilt? name replacement expression).getD expression := by
  simp only [mem_variableNames]
  refine ⟨evaluate_substitute valued markerless, fun occurs other => ?_, fun absent => ?_,
    (getD_rebuilt? expression).symm⟩
  · rw [mem_occurrences_substitute markerless, and_iff_right occurs]
  · exact ⟨rebuilt?_eq_none_iff.mpr absent, substitute_of_not_mem absent⟩

/-- The replacement may contain the variable that it replaces, and one operand only may
change. -/
theorem substitution_evaluates_successor :
    let arithmetic := Doubles.arithmetic .standard
    let successor : Expr Float := .var "x" + .const 1.0
    let product : Expr Float := .call "max" (.var "y" * .var "x") [.var "y"]
    let bindings : String → Option Float := fun name =>
      if name = "x" then some 2.0 else if name = "y" then some 3.0 else none
    product.hasMarker = false ∧
      successor.evaluate arithmetic [] bindings = .ok (2.0 + 1.0) ∧
      (substitute "x" successor product).evaluate arithmetic [] bindings =
        product.evaluate arithmetic [] (Function.update bindings "x" (some (2.0 + 1.0))) ∧
      substitute "x" successor product =
        .call "max" (.var "y" * (.var "x" + .const 1.0)) [.var "y"] :=
  ⟨rfl, rfl, (substitution_evaluates_as_binding _ _ _ _ rfl rfl).1, rfl⟩

end ExprCalculus
