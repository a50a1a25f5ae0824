import ExprCalculus.Evaluation.Arithmetic
import ExprCalculus.Proofs.Outcomes

/-!
# Values under more bindings

An expression that has a value holds no marker of an unknown integral, and it keeps its
value when further variables are bound and further functions are supplied.
-/

namespace ExprCalculus

/-- Every function of an environment is also found in another one. -/
def FunctionEnvironment.ExtendedBy {α : Type} (functions further : FunctionEnvironment α) :
    Prop :=
  ∀ name function, functions.lookup? name = some function → further.lookup? name = some function

theorem FunctionEnvironment.nil_extendedBy {α : Type} (further : FunctionEnvironment α) :
    FunctionEnvironment.ExtendedBy [] further := by
  intro name function found
  cases found

variable {α : Type} {arithmetic : Arithmetic α} {functions further : FunctionEnvironment α}
  {value : α}

theorem Arithmetic.callByName_of_extendedBy (extended : functions.ExtendedBy further)
    {name : String} {arguments : List α}
    (applied : arithmetic.callByName functions name arguments = .ok value) :
    arithmetic.callByName further name arguments = .ok value := by
  unfold Arithmetic.callByName at applied ⊢
  split at applied
  · exact applied
  · split at applied
    next function found =>
      rw [extended name function found]
      exact applied
    next => cases applied

namespace Expr

variable {bindings more : String → Option α}

mutual

/-- A value is kept when more is bound and supplied. -/
theorem evaluate_of_extends (extended : functions.ExtendedBy further)
    (binds : ∀ name value, bindings name = some value → more name = some value)
    {expression : Expr α} {value : α}
    (evaluated : expression.evaluate arithmetic functions bindings = .ok value) :
    expression.evaluate arithmetic further more = .ok value := by
  cases expression with
  | const _ => exact evaluated
  | var name =>
      rw [evaluate] at evaluated ⊢
      split at evaluated
      next bound isBound =>
        rw [binds name bound isBound]
        exact evaluated
      next => cases evaluated
  | unary operator operand =>
      obtain ⟨argument, isArgument, applied⟩ := except_bind_eq_ok.mp evaluated
      rw [evaluate, evaluate_of_extends extended binds isArgument]
      exact applied
  | binary operator left right =>
      obtain ⟨first, isFirst, rest⟩ := except_bind_eq_ok.mp evaluated
      obtain ⟨second, isSecond, combined⟩ := except_bind_eq_ok.mp rest
      rw [evaluate, evaluate_of_extends extended binds isFirst,
        evaluate_of_extends extended binds isSecond]
      exact combined
  | call name first others =>
      obtain ⟨head, isHead, rest⟩ := except_bind_eq_ok.mp evaluated
      obtain ⟨tail, isTail, applied⟩ := except_bind_eq_ok.mp rest
      rw [evaluate, evaluate_of_extends extended binds isHead,
        evaluateAll_of_extends extended binds isTail]
      exact Arithmetic.callByName_of_extendedBy extended applied
  | integral _ _ => cases evaluated

theorem evaluateAll_of_extends (extended : functions.ExtendedBy further)
    (binds : ∀ name value, bindings name = some value → more name = some value)
    {expressions : List (Expr α)} {values : List α}
    (evaluated : evaluateAll arithmetic functions bindings expressions = .ok values) :
    evaluateAll arithmetic further more expressions = .ok values := by
  cases expressions with
  | nil => exact evaluated
  | cons expression rest =>
      obtain ⟨head, isHead, others⟩ := except_bind_eq_ok.mp evaluated
      obtain ⟨tail, isTail, joined⟩ := except_bind_eq_ok.mp others
      rw [evaluateAll, evaluate_of_extends extended binds isHead,
        evaluateAll_of_extends extended binds isTail]
      exact joined

end

mutual

/-- An unknown integral has no value, and neither has what holds one. -/
theorem markerless_of_evaluate {expression : Expr α} {value : α}
    (evaluated : expression.evaluate arithmetic functions bindings = .ok value) :
    expression.hasMarker = false := by
  cases expression with
  | const _ => rfl
  | var _ => rfl
  | unary operator operand =>
      obtain ⟨argument, isArgument, -⟩ := except_bind_eq_ok.mp evaluated
      rw [hasMarker, markerless_of_evaluate isArgument]
  | binary operator left right =>
      obtain ⟨first, isFirst, rest⟩ := except_bind_eq_ok.mp evaluated
      obtain ⟨second, isSecond, -⟩ := except_bind_eq_ok.mp rest
      rw [hasMarker, markerless_of_evaluate isFirst, markerless_of_evaluate isSecond,
        Bool.or_false]
  | call name first others =>
      obtain ⟨head, isHead, rest⟩ := except_bind_eq_ok.mp evaluated
      obtain ⟨tail, isTail, -⟩ := except_bind_eq_ok.mp rest
      rw [hasMarker, markerless_of_evaluate isHead, markerless_of_evaluateAll isTail,
        Bool.or_false]
  | integral _ _ => cases evaluated

theorem markerless_of_evaluateAll {expressions : List (Expr α)} {values : List α}
    (evaluated : evaluateAll arithmetic functions bindings expressions = .ok values) :
    hasMarkerAny expressions = false := by
  cases expressions with
  | nil => rfl
  | cons expression rest =>
      obtain ⟨head, isHead, others⟩ := except_bind_eq_ok.mp evaluated
      obtain ⟨tail, isTail, -⟩ := except_bind_eq_ok.mp others
      rw [hasMarkerAny, markerless_of_evaluate isHead, markerless_of_evaluateAll isTail,
        Bool.or_false]

end

end Expr

end ExprCalculus
