import ExprCalculus.Proofs.Evaluation.Faults
import ExprCalculus.Proofs.Rebuilding.Somewhere
import ExprCalculus.Proofs.Simplification.Folding

/-!
# Faults of evaluating, simplifying and integrating

Without further functions, evaluating an expression in doubles gives a double or ends
with a fault of the expression, unless a factorial or a number of permutations in it
overflows in the logarithm of the gamma function.  Folding passes over the faults of the
expression but not over this one, so simplifying and integrating have a result under the
same condition.
-/

namespace ExprCalculus

open ExprCalculus.Combinatorics

namespace Expr

variable (settings : Settings)

/-- A factorial, or the call of a function, in which the logarithm of the gamma function
overflows for the values of the operands. -/
inductive Overflowing (HasValue : Expr Float → Float → Prop) : Expr Float → Prop
  | operator {operand : Expr Float} {value : Float} (hasValue : HasValue operand value)
      (overflow : GammaOverflow settings "factorial" [value]) :
      Overflowing HasValue (.unary .factorial operand)
  | call {name : String} {first : Expr Float} {others : List (Expr Float)} {values : List Float}
      (haveValues : List.Forall₂ HasValue (first :: others) values)
      (overflow : GammaOverflow settings (Text.toLower name) values) :
      Overflowing HasValue (.call name first others)

/-- Somewhere in an expression the logarithm of the gamma function overflows. -/
abbrev Overflows (HasValue : Expr Float → Float → Prop) : Expr Float → Prop :=
  Somewhere (Overflowing settings HasValue)

variable {settings} in
theorem Overflows.mono {HasValue Other : Expr Float → Float → Prop} {expression : Expr Float}
    (overflows : Overflows settings HasValue expression)
    (implies : ∀ expression value, HasValue expression value → Other expression value) :
    Overflows settings Other expression := by
  refine Somewhere.mono overflows fun part overflowing => ?_
  cases overflowing with
  | operator hasValue overflow => exact .operator (implies _ _ hasValue) overflow
  | call haveValues overflow => exact .call (haveValues.imp implies) overflow

section Evaluating

variable (bindings : String → Option Float)

/-- An expression has a value under the bindings. -/
def Evaluates (expression : Expr Float) (value : Float) : Prop :=
  expression.evaluate (Doubles.arithmetic settings) [] bindings = .ok value

theorem evaluates_of_evaluateAll {expressions : List (Expr Float)} {values : List Float}
    (areValues : evaluateAll (Doubles.arithmetic settings) [] bindings expressions = .ok values) :
    List.Forall₂ (Evaluates settings bindings) expressions values := by
  induction expressions generalizing values with
  | nil =>
      rw [evaluateAll, Except.ok.injEq] at areValues
      subst areValues
      exact .nil
  | cons expression rest ih =>
      rw [evaluateAll, except_bind_eq_ok] at areValues
      obtain ⟨value, isValue, areValues⟩ := areValues
      obtain ⟨others, areOthers, total⟩ := except_bind_eq_ok.mp areValues
      cases total
      exact .cons isValue (ih areOthers)

mutual

/-- Evaluating fails with a fault of the expression or because it overflows. -/
theorem failsOnly_evaluate (expression : Expr Float) :
    FailsOnly (Overflows settings (Evaluates settings bindings) expression)
      (expression.evaluate (Doubles.arithmetic settings) [] bindings) := by
  match expression with
  | .const value =>
      rw [evaluate]
      exact .ok value
  | .var name =>
      rw [evaluate]
      split
      · exact .ok _
      · exact .error rfl
  | .unary operator operand =>
      rw [evaluate]
      refine ((failsOnly_evaluate operand).mono (·.inOperand operator)).bind fun value isValue => ?_
      refine (Doubles.failsOnly_unary settings operator value).mono ?_
      rintro ⟨rfl, overflow⟩
      exact .here (.operator isValue overflow)
  | .binary operator left right =>
      rw [evaluate]
      refine ((failsOnly_evaluate left).mono (·.inLeft operator right)).bind fun _ _ => ?_
      refine ((failsOnly_evaluate right).mono (·.inRight operator left)).bind fun _ _ => ?_
      exact .ok _
  | .call name first others =>
      rw [evaluate]
      refine ((failsOnly_evaluate first).mono (.inside List.mem_cons_self)).bind
        fun value isValue => ?_
      refine ((failsOnly_evaluateAll others).mono ?_).bind fun values areValues => ?_
      · rintro ⟨other, member, overflows⟩
        exact .inside (List.mem_cons_of_mem _ member) overflows
      refine (Doubles.failsOnly_callByName settings name (value :: values)).mono fun overflow => ?_
      exact .here
        (.call (.cons isValue (evaluates_of_evaluateAll settings bindings areValues)) overflow)
  | .integral integrand name =>
      rw [evaluate]
      exact .error rfl

theorem failsOnly_evaluateAll (expressions : List (Expr Float)) :
    FailsOnly (∃ expression ∈ expressions,
        Overflows settings (Evaluates settings bindings) expression)
      (evaluateAll (Doubles.arithmetic settings) [] bindings expressions) := by
  match expressions with
  | [] =>
      rw [evaluateAll]
      exact .ok _
  | expression :: rest =>
      rw [evaluateAll]
      refine ((failsOnly_evaluate expression).mono fun overflows => ?_).bind fun value _ => ?_
      · exact ⟨expression, List.mem_cons_self, overflows⟩
      refine ((failsOnly_evaluateAll rest).mono ?_).bind fun values _ => ?_
      · rintro ⟨other, member, overflows⟩
        exact ⟨other, List.mem_cons_of_mem _ member, overflows⟩
      · exact .ok _

end

end Evaluating

section Simplifying

open Simplification

def SimplifiesTo (expression : Expr Float) (value : Float) : Prop :=
  (expression.simplify (Doubles.arithmetic settings)).outcome = .ok (.const value)

variable {settings} {fault : EvaluationFault Float}

theorem simplifiesTo_of_simplifyAll {expressions : List (Expr Float)} {constants : List Float}
    (simplified : (simplifyAll (Doubles.arithmetic settings) expressions).outcome =
      .ok (constants.map .const)) :
    List.Forall₂ (SimplifiesTo settings) expressions constants := by
  rw [simplifyAll_eq_ok, List.forall₂_map_right_iff] at simplified
  exact simplified

mutual

/-- Simplifying fails only because it overflows. -/
theorem overflows_of_simplify {expression : Expr Float}
    (failed : (expression.simplify (Doubles.arithmetic settings)).outcome = .error fault) :
    fault = .logGammaOverflow ∧ Overflows settings (SimplifiesTo settings) expression := by
  match expression with
  | .const value =>
      rw [simplify_const] at failed
      cases failed
  | .var name =>
      rw [simplify_var] at failed
      cases failed
  | .unary operator operand =>
      rw [simplify] at failed
      rcases Traced.outcome_bind_eq_error.mp failed with failed | ⟨inner, isInner, failed⟩
      · obtain ⟨isOverflow, overflows⟩ := overflows_of_simplify failed
        exact ⟨isOverflow, overflows.inOperand operator⟩
      · obtain ⟨value, rfl, failed, foreign⟩ := unary_fold_error failed
        rcases Doubles.failsOnly_unary settings operator value fault failed with
          ordinary | ⟨isOverflow, rfl, overflow⟩
        · rw [foreign] at ordinary
          cases ordinary
        · exact ⟨isOverflow, .here (.operator isInner overflow)⟩
  | .binary operator left right =>
      rw [simplify] at failed
      rcases Traced.outcome_bind_eq_error.mp failed with failed | ⟨newLeft, -, failed⟩
      · obtain ⟨isOverflow, overflows⟩ := overflows_of_simplify failed
        exact ⟨isOverflow, overflows.inLeft operator right⟩
      rcases Traced.outcome_bind_eq_error.mp failed with failed | ⟨newRight, -, failed⟩
      · obtain ⟨isOverflow, overflows⟩ := overflows_of_simplify failed
        exact ⟨isOverflow, overflows.inRight operator left⟩
      · obtain ⟨result, made⟩ :=
          exists_binary (Doubles.arithmetic settings) operator newLeft newRight
        rw [made] at failed
        cases failed
  | .call name first others =>
      rw [simplify] at failed
      rcases Traced.outcome_bind_eq_error.mp failed with failed | ⟨newFirst, isFirst, failed⟩
      · obtain ⟨isOverflow, overflows⟩ := overflows_of_simplify failed
        exact ⟨isOverflow, .inside List.mem_cons_self overflows⟩
      rcases Traced.outcome_bind_eq_error.mp failed with failed | ⟨newOthers, areOthers, failed⟩
      · obtain ⟨isOverflow, other, member, overflows⟩ := overflows_of_simplifyAll failed
        exact ⟨isOverflow, .inside (List.mem_cons_of_mem _ member) overflows⟩
      · obtain ⟨value, values, rfl, rfl, failed, foreign⟩ := call_fold_error failed
        rcases Doubles.failsOnly_callByName settings name (value :: values) fault failed with
          ordinary | ⟨isOverflow, overflow⟩
        · rw [foreign] at ordinary
          cases ordinary
        · have haveValues : List.Forall₂ (SimplifiesTo settings) (first :: others)
              (value :: values) := .cons isFirst (simplifiesTo_of_simplifyAll areOthers)
          exact ⟨isOverflow, .here (.call haveValues overflow)⟩
  | .integral integrand name =>
      rw [simplify] at failed
      rcases Traced.outcome_bind_eq_error.mp failed with failed | ⟨inner, -, failed⟩
      · obtain ⟨isOverflow, overflows⟩ := overflows_of_simplify failed
        exact ⟨isOverflow, .inside List.mem_cons_self overflows⟩
      · cases failed

theorem overflows_of_simplifyAll {expressions : List (Expr Float)}
    (failed : (simplifyAll (Doubles.arithmetic settings) expressions).outcome = .error fault) :
    fault = .logGammaOverflow ∧ ∃ expression ∈ expressions,
      Overflows settings (SimplifiesTo settings) expression := by
  match expressions with
  | [] =>
      rw [simplifyAll_nil] at failed
      cases failed
  | expression :: rest =>
      rw [simplifyAll] at failed
      rcases Traced.outcome_bind_eq_error.mp failed with failed | ⟨first, -, failed⟩
      · obtain ⟨isOverflow, overflows⟩ := overflows_of_simplify failed
        exact ⟨isOverflow, expression, List.mem_cons_self, overflows⟩
      rcases Traced.outcome_bind_eq_error.mp failed with failed | ⟨others, -, failed⟩
      · obtain ⟨isOverflow, other, member, overflows⟩ := overflows_of_simplifyAll failed
        exact ⟨isOverflow, other, List.mem_cons_of_mem _ member, overflows⟩
      · cases failed

end

end Simplifying

section Integrating

variable {settings}

/-- An expression has a value without bindings, or it is simplified to a constant. -/
def Reduces (settings : Settings) (expression : Expr Float) (value : Float) : Prop :=
  Evaluates settings (fun _ => none) expression value ∨ SimplifiesTo settings expression value

/-- Only factorials and calls of functions other than the reciprocal ones overflow. -/
theorem isDemanding_of_overflowing {HasValue : Expr Float → Float → Prop}
    (expression : Expr Float) (overflowing : Overflowing settings HasValue expression) :
    IsDemanding expression := by
  cases overflowing with
  | operator => trivial
  | @call name first others values haveValues overflow =>
      intro listed
      have lower : Text.toLower name ∉ ["factorial", "permutation", "perm", "npr"] := by
        revert listed
        simp only [List.mem_cons, List.not_mem_nil, or_false]
        rintro (rfl | rfl | rfl) <;> decide +kernel
      generalize Text.toLower name = shown at overflow lower
      cases overflow with
      | factorial => exact absurd List.mem_cons_self lower
      | permutation listed => exact lower (List.mem_cons_of_mem _ listed)

variable {name : String} {expression : Expr Float}

theorem overflows_of_closedValue {fault : EvaluationFault Float}
    (failed : expression.closedValue (Doubles.arithmetic settings) = .error fault)
    (foreign : fault.isOrdinary = false) :
    fault = .logGammaOverflow ∧ Overflows settings (Reduces settings) expression := by
  rcases failsOnly_evaluate settings (fun _ => none) expression fault failed with
    ordinary | ⟨isOverflow, overflows⟩
  · rw [foreign] at ordinary
    cases ordinary
  · exact ⟨isOverflow, Overflows.mono overflows fun _ _ => .inl⟩

/-- Integrating over a variable with a name fails only because it overflows. -/
theorem overflows_of_integrate {fault : TransformFault Float} (named : ¬ name.isEmpty = true)
    (failed : (expression.integrate (Doubles.arithmetic settings) name).outcome = .error fault) :
    fault = .evaluation .logGammaOverflow ∧
      Overflows settings (Reduces settings) expression := by
  have calculating : Calculating fun part => Overflows settings (Reduces settings) part →
      Overflows settings (Reduces settings) expression :=
    calculating_somewhere isDemanding_of_overflowing _
  have yields : Yields (Doubles.arithmetic settings) _
      (expression.antiderivative (Doubles.arithmetic settings) name) :=
    calculating.yields_antiderivative (fun found =>
      (isDemanding_of_overflowing _ (somewhere_var.mp found)).elim) id
  unfold integrate at failed
  rw [if_neg named] at failed
  rcases Traced.outcome_bind_eq_error.mp failed with failed | ⟨_, -, failed⟩
  · cases failed
  rcases Traced.outcome_bind_eq_error.mp failed with failed | ⟨result, found, failed⟩
  · obtain ⟨fault, ended, rfl⟩ := mapError_eq_error.mp failed
    obtain ⟨foreign, part, partGiven, closed⟩ := yields.fault fault ended
    obtain ⟨rfl, overflows⟩ := overflows_of_closedValue closed foreign
    exact ⟨rfl, partGiven overflows⟩
  rcases Traced.outcome_bind_eq_error.mp failed with failed | ⟨simplified, -, failed⟩
  · obtain ⟨fault, ended, rfl⟩ := mapError_eq_error.mp failed
    obtain ⟨rfl, overflows⟩ := overflows_of_simplify ended
    exact ⟨rfl, yields.tree result (mapError_eq_ok.mp found)
      (Overflows.mono overflows fun _ _ => .inr)⟩
  · cases failed

end Integrating

end Expr

open ExprCalculus.Expr

/-- Without further functions, an expression has a value, or a fault of its own keeps it
from having one, unless a factorial or a number of permutations in it overflows in the
logarithm of the gamma function.  Under the same condition it is simplified, and it is
integrated over every variable that has a name. -/
theorem evaluation_faults_closed (settings : Settings) (expression : Expr Float) :
    let arithmetic := Doubles.arithmetic settings
    (∀ bindings,
      (∃ value, expression.evaluate arithmetic [] bindings = .ok value) ∨
      (∃ fault, expression.evaluate arithmetic [] bindings = .error fault ∧
        fault.isOrdinary = true) ∨
      expression.evaluate arithmetic [] bindings = .error .logGammaOverflow ∧
        Overflows settings (Evaluates settings bindings) expression) ∧
    ((∃ result, (expression.simplify arithmetic).outcome = .ok result) ∨
      (expression.simplify arithmetic).outcome = .error .logGammaOverflow ∧
        Overflows settings (SimplifiesTo settings) expression) ∧
    ∀ name,
      (∃ result, (expression.integrate arithmetic name).outcome = .ok result) ∨
      name.isEmpty = true ∧
        (expression.integrate arithmetic name).outcome = .error (.build .emptyVariable) ∨
      (expression.integrate arithmetic name).outcome =
          .error (.evaluation .logGammaOverflow) ∧
        Overflows settings (Reduces settings) expression := by
  intro arithmetic
  refine ⟨fun bindings => ?_, ?_, fun name => ?_⟩
  · cases evaluated : expression.evaluate arithmetic [] bindings with
    | ok value => exact .inl ⟨value, rfl⟩
    | error fault =>
        rcases failsOnly_evaluate settings bindings expression fault evaluated with
          ordinary | ⟨rfl, overflows⟩
        · exact .inr (.inl ⟨fault, rfl, ordinary⟩)
        · exact .inr (.inr ⟨rfl, overflows⟩)
  · cases simplified : (expression.simplify arithmetic).outcome with
    | ok result => exact .inl ⟨result, rfl⟩
    | error fault =>
        obtain ⟨rfl, overflows⟩ := overflows_of_simplify simplified
        exact .inr ⟨rfl, overflows⟩
  · by_cases named : name.isEmpty = true
    · refine .inr (.inl ⟨named, ?_⟩)
      rw [integrate, if_pos named]
      rfl
    · cases integrated : (expression.integrate arithmetic name).outcome with
      | ok result => exact .inl ⟨result, rfl⟩
      | error fault =>
          obtain ⟨rfl, overflows⟩ := overflows_of_integrate named integrated
          exact .inr (.inr ⟨rfl, overflows⟩)

end ExprCalculus
