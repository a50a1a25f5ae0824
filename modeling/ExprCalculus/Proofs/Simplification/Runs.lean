import ExprCalculus.Proofs.Outcomes
import ExprCalculus.Simplification.Basic

/-!
# Successful simplifications

A simplification that gives a result has simplified the operands of the node and then
applied the rule for the node to what became of them.  What holds of every such run is
proved with one case for each kind of node.
-/

namespace ExprCalculus

namespace Expr

variable {α : Type} {arithmetic : Arithmetic α}

section Nodes

variable {result operand left right first integrand : Expr α} {others : List (Expr α)}
  {name : String}

theorem simplify_const_eq_ok {value : α} :
    ((const value).simplify arithmetic).outcome = .ok result ↔ result = .const value := by
  rw [simplify_const, Traced.outcome_pure, Except.ok.injEq, eq_comm]

theorem simplify_var_eq_ok :
    ((var name).simplify arithmetic).outcome = .ok result ↔ result = .var name := by
  rw [simplify_var, Traced.outcome_pure, Except.ok.injEq, eq_comm]

theorem simplify_unary_eq_ok {operator : UnaryOperator} :
    ((unary operator operand).simplify arithmetic).outcome = .ok result ↔
      ∃ inner, (operand.simplify arithmetic).outcome = .ok inner ∧
        (Simplification.unary arithmetic operator inner).outcome = .ok result := by
  rw [simplify, Traced.outcome_bind_eq_ok]

theorem simplify_binary_eq_ok {operator : BinaryOperator} :
    ((binary operator left right).simplify arithmetic).outcome = .ok result ↔
      ∃ newLeft newRight, (left.simplify arithmetic).outcome = .ok newLeft ∧
        (right.simplify arithmetic).outcome = .ok newRight ∧
        (Simplification.binary arithmetic operator newLeft newRight).outcome = .ok result := by
  simp only [simplify, Traced.outcome_bind_eq_ok, exists_and_left]

theorem simplify_call_eq_ok :
    ((call name first others).simplify arithmetic).outcome = .ok result ↔
      ∃ newFirst newOthers, (first.simplify arithmetic).outcome = .ok newFirst ∧
        (simplifyAll arithmetic others).outcome = .ok newOthers ∧
        (Simplification.call arithmetic name newFirst newOthers).outcome = .ok result := by
  simp only [simplify, Traced.outcome_bind_eq_ok, exists_and_left]

theorem simplify_integral_eq_ok :
    ((integral integrand name).simplify arithmetic).outcome = .ok result ↔
      ∃ inner, (integrand.simplify arithmetic).outcome = .ok inner ∧
        result = .integral inner name := by
  simp only [simplify, Traced.outcome_bind_eq_ok, Traced.outcome_pure, Except.ok.injEq,
    eq_comm (b := result)]

end Nodes

/-- Several expressions are simplified one by one. -/
theorem simplifyAll_eq_ok {expressions results : List (Expr α)} :
    (simplifyAll arithmetic expressions).outcome = .ok results ↔
      List.Forall₂ (fun expression result =>
        (expression.simplify arithmetic).outcome = .ok result) expressions results := by
  induction expressions generalizing results with
  | nil =>
      rw [simplifyAll_nil, Traced.outcome_pure, Except.ok.injEq, List.forall₂_nil_left_iff,
        eq_comm]
  | cons expression rest ih =>
      rw [simplifyAll, Traced.outcome_bind_eq_ok, List.forall₂_cons_left_iff]
      constructor
      · rintro ⟨first, isFirst, further⟩
        obtain ⟨others, areOthers, made⟩ := Traced.outcome_bind_eq_ok.mp further
        cases made
        exact ⟨first, others, isFirst, ih.mp areOthers, rfl⟩
      · rintro ⟨first, others, isFirst, areOthers, rfl⟩
        exact ⟨first, isFirst, Traced.outcome_bind_eq_ok.mpr ⟨others, ih.mpr areOthers, rfl⟩⟩

section Induction

variable
  {motive : ∀ expression result : Expr α,
    (expression.simplify arithmetic).outcome = .ok result → Prop}
  (const : ∀ value, motive (.const value) (.const value) (simplify_const_eq_ok.mpr rfl))
  (var : ∀ name, motive (.var name) (.var name) (simplify_var_eq_ok.mpr rfl))
  (unary : ∀ {operator operand inner result}
    (operandSimplified : (simplify arithmetic operand).outcome = .ok inner)
    (made : (Simplification.unary arithmetic operator inner).outcome = .ok result),
    motive operand inner operandSimplified →
    motive (.unary operator operand) result
      (simplify_unary_eq_ok.mpr ⟨_, operandSimplified, made⟩))
  (binary : ∀ {operator left right newLeft newRight result}
    (leftSimplified : (simplify arithmetic left).outcome = .ok newLeft)
    (rightSimplified : (simplify arithmetic right).outcome = .ok newRight)
    (made : (Simplification.binary arithmetic operator newLeft newRight).outcome = .ok result),
    motive left newLeft leftSimplified → motive right newRight rightSimplified →
    motive (.binary operator left right) result
      (simplify_binary_eq_ok.mpr ⟨_, _, leftSimplified, rightSimplified, made⟩))
  (call : ∀ {name first others newFirst newOthers result}
    (firstSimplified : (simplify arithmetic first).outcome = .ok newFirst)
    (othersSimplified : (simplifyAll arithmetic others).outcome = .ok newOthers)
    (made : (Simplification.call arithmetic name newFirst newOthers).outcome = .ok result),
    motive first newFirst firstSimplified →
    List.Forall₂ (fun other renewed => ∃ simplified, motive other renewed simplified)
      others newOthers →
    motive (.call name first others) result
      (simplify_call_eq_ok.mpr ⟨_, _, firstSimplified, othersSimplified, made⟩))
  (integral : ∀ {integrand name inner}
    (integrandSimplified : (simplify arithmetic integrand).outcome = .ok inner),
    motive integrand inner integrandSimplified →
    motive (.integral integrand name) (.integral inner name)
      (simplify_integral_eq_ok.mpr ⟨_, integrandSimplified, rfl⟩))
include const var unary binary call integral

/-- Induction on a simplification that gives a result, with one case for each kind of
node.  The arguments of a call after the first come pair by pair. -/
@[elab_as_elim]
theorem simplify_induction {expression result : Expr α}
    (simplified : (expression.simplify arithmetic).outcome = .ok result) :
    motive expression result simplified := by
  match expression with
  | .const value =>
      obtain rfl := simplify_const_eq_ok.mp simplified
      exact const value
  | .var name =>
      obtain rfl := simplify_var_eq_ok.mp simplified
      exact var name
  | .unary operator operand =>
      obtain ⟨inner, operandSimplified, made⟩ := simplify_unary_eq_ok.mp simplified
      exact unary operandSimplified made (simplify_induction operandSimplified)
  | .binary operator left right =>
      obtain ⟨_, _, leftSimplified, rightSimplified, made⟩ := simplify_binary_eq_ok.mp simplified
      exact binary leftSimplified rightSimplified made (simplify_induction leftSimplified)
        (simplify_induction rightSimplified)
  | .call name first others =>
      obtain ⟨_, _, firstSimplified, othersSimplified, made⟩ := simplify_call_eq_ok.mp simplified
      refine call firstSimplified othersSimplified made (simplify_induction firstSimplified) ?_
      have pairs := List.forall₂_iff_get.mp (simplifyAll_eq_ok.mp othersSimplified)
      exact List.forall₂_iff_get.mpr ⟨pairs.1, fun index below isBelow =>
        ⟨pairs.2 index below isBelow, simplify_induction (pairs.2 index below isBelow)⟩⟩
  | .integral integrand name =>
      obtain ⟨inner, integrandSimplified, rfl⟩ := simplify_integral_eq_ok.mp simplified
      exact integral integrandSimplified (simplify_induction integrandSimplified)
termination_by sizeOf expression
decreasing_by
  all_goals simp_wf
  all_goals first
    | omega
    | (have smaller := List.sizeOf_lt_of_mem (List.getElem_mem below); omega)

end Induction

end Expr

end ExprCalculus
