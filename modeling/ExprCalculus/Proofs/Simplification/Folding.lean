import ExprCalculus.Proofs.Outcomes
import ExprCalculus.Proofs.Simplification.Stability

/-!
# Folding and evaluating

A node is folded if its operands are constants and it has a finite value; folding it
ends with a fault only if evaluating it does.  The value of a node depends on the
values of its operands alone, so a folded node may be compared with the node that its
operands came from.
-/

namespace ExprCalculus

variable {α : Type} {arithmetic : Arithmetic α}

namespace Expr

variable {operand left right first : Expr α} {others : List (Expr α)}

/-- Expressions that have the given values, one by one. -/
def HaveValues (arithmetic : Arithmetic α) (expressions : List (Expr α)) (values : List α) :
    Prop :=
  List.Forall₂ (fun expression value => expression.closedValue arithmetic = .ok value)
    expressions values

theorem closedValue_const (value : α) :
    (const value : Expr α).closedValue arithmetic = .ok value := by
  rw [closedValue, evaluate]

theorem closedValue_unary {value : α} (isValue : operand.closedValue arithmetic = .ok value)
    (operator : UnaryOperator) :
    (unary operator operand).closedValue arithmetic = arithmetic.unary operator value := by
  unfold closedValue at isValue ⊢
  rw [evaluate, isValue, except_ok_bind]

theorem closedValue_binary {leftValue rightValue : α}
    (isLeft : left.closedValue arithmetic = .ok leftValue)
    (isRight : right.closedValue arithmetic = .ok rightValue) (operator : BinaryOperator) :
    (binary operator left right).closedValue arithmetic =
      .ok (arithmetic.binary operator leftValue rightValue) := by
  unfold closedValue at isLeft isRight ⊢
  rw [evaluate, isLeft, except_ok_bind, isRight, except_ok_bind, except_pure]

theorem evaluateAll_of_haveValues {expressions : List (Expr α)} {values : List α}
    (haveValues : HaveValues arithmetic expressions values) :
    evaluateAll arithmetic [] (fun _ => none) expressions = .ok values := by
  induction haveValues with
  | nil => rw [evaluateAll]
  | cons isValue _ ih =>
      unfold closedValue at isValue
      rw [evaluateAll, isValue, except_ok_bind, ih, except_ok_bind, except_pure]

theorem closedValue_call {value : α} {values : List α}
    (isValue : first.closedValue arithmetic = .ok value)
    (haveValues : HaveValues arithmetic others values) (name : String) :
    (call name first others).closedValue arithmetic =
      arithmetic.callByName [] name (value :: values) := by
  unfold closedValue at isValue ⊢
  rw [evaluate, isValue, except_ok_bind, evaluateAll_of_haveValues haveValues, except_ok_bind]

theorem exists_consts {expressions : List (Expr α)}
    (constant : ∀ expression ∈ expressions, expression.kind = .constant) :
    ∃ values : List α, expressions = values.map const := by
  induction expressions with
  | nil => exact ⟨[], rfl⟩
  | cons first rest ih =>
      obtain ⟨value, rfl⟩ := exists_const_of_kind (constant first List.mem_cons_self)
      obtain ⟨values, rfl⟩ := ih fun other member =>
        constant other (List.mem_cons_of_mem _ member)
      exact ⟨value :: values, rfl⟩

theorem haveValues_consts (values : List α) :
    HaveValues arithmetic (values.map const) values := by
  induction values with
  | nil => exact .nil
  | cons value rest ih => exact .cons (closedValue_const value) ih

end Expr

theorem Expr.simplify_binary_outcome {operator : BinaryOperator}
    {left right simplifiedLeft simplifiedRight : Expr α}
    (isLeft : (left.simplify arithmetic).outcome = .ok simplifiedLeft)
    (isRight : (right.simplify arithmetic).outcome = .ok simplifiedRight) :
    ((binary operator left right).simplify arithmetic).outcome =
      (Simplification.binary arithmetic operator simplifiedLeft simplifiedRight).outcome := by
  rw [simplify, Traced.outcome_bind, isLeft]
  change (Traced.outcome _) = _
  rw [Traced.outcome_bind, isRight]
  rfl

namespace Simplification

open ExprCalculus.Expr

variable {expression : Expr α} {operands : List (Expr α)} {value : α}
  {fault : EvaluationFault α}

theorem fold_eq_some (folded : (fold arithmetic expression).outcome = .ok (some value)) :
    expression.closedValue arithmetic = .ok value ∧ arithmetic.isFinite value = true := by
  unfold fold at folded
  split at folded
  next other closed =>
    rw [Traced.outcome_pure, Except.ok.injEq] at folded
    split at folded
    next finite =>
      cases folded
      exact ⟨closed, finite⟩
    next => cases folded
  next => split at folded <;> cases folded

theorem fold_eq_error (failed : (fold arithmetic expression).outcome = .error fault) :
    expression.closedValue arithmetic = .error fault ∧ fault.isOrdinary = false := by
  unfold fold at failed
  split at failed
  next => cases failed
  next other closed =>
    split at failed
    next => cases failed
    next foreign =>
      cases failed
      exact ⟨closed, Bool.eq_false_iff.mpr foreign⟩

/-- A node between constants is folded to its value if that is finite. -/
theorem foldOver_consts (constants : List α)
    (closed : expression.closedValue arithmetic = .ok value) :
    (foldOver arithmetic (constants.map const) expression).outcome =
      .ok (if arithmetic.isFinite value then some value else none) := by
  have constant : (constants.map const).all (fun operand => operand.kind = .constant) = true := by
    simp [kind]
  rw [foldOver, if_pos constant, fold, closed]
  rfl

theorem foldOver_eq_some
    (folded : (foldOver arithmetic operands expression).outcome = .ok (some value)) :
    (∃ values : List α, operands = values.map const) ∧
      expression.closedValue arithmetic = .ok value ∧ arithmetic.isFinite value = true := by
  unfold foldOver at folded
  split at folded
  next constant =>
    refine ⟨exists_consts fun operand member => ?_, fold_eq_some folded⟩
    exact of_decide_eq_true (List.all_eq_true.mp constant operand member)
  next => cases folded

theorem foldOver_eq_error
    (failed : (foldOver arithmetic operands expression).outcome = .error fault) :
    (∃ values : List α, operands = values.map const) ∧
      expression.closedValue arithmetic = .error fault ∧ fault.isOrdinary = false := by
  unfold foldOver at failed
  split at failed
  next constant =>
    refine ⟨exists_consts fun operand member => ?_, fold_eq_error failed⟩
    exact of_decide_eq_true (List.all_eq_true.mp constant operand member)
  next => cases failed

section Nodes

variable {operand left right first result : Expr α} {others : List (Expr α)}

theorem unary_of_finite {operator : UnaryOperator} {constant : α}
    (isValue : arithmetic.unary operator constant = .ok value)
    (finite : arithmetic.isFinite value = true) :
    (unary arithmetic operator (.const constant)).outcome = .ok (.const value) := by
  have closed : (Expr.unary operator (.const constant)).closedValue arithmetic = .ok value :=
    (closedValue_unary (closedValue_const constant) operator).trans isValue
  have folded := foldOver_consts [constant] closed
  rw [List.map_singleton, if_pos finite] at folded
  rw [unary_outcome, folded]
  rfl

theorem binary_consts (operator : BinaryOperator) (leftConstant rightConstant : α) :
    (binary arithmetic operator (.const leftConstant) (.const rightConstant)).outcome =
      if arithmetic.isFinite (arithmetic.binary operator leftConstant rightConstant) = true then
        .ok (.const (arithmetic.binary operator leftConstant rightConstant))
      else
        (binaryRule arithmetic operator (.const leftConstant) (.const rightConstant)).outcome := by
  have closed : (Expr.binary operator (.const leftConstant) (.const rightConstant)).closedValue
      arithmetic = .ok (arithmetic.binary operator leftConstant rightConstant) :=
    closedValue_binary (closedValue_const _) (closedValue_const _) operator
  have folded := foldOver_consts [leftConstant, rightConstant] closed
  rw [List.map_cons, List.map_singleton] at folded
  rw [binary_outcome, folded]
  split <;> rfl

/-- Operands that are not both constants are left to the rule of the operator. -/
theorem binary_of_not_constants {operator : BinaryOperator}
    (varies : ¬ (left.kind = .constant ∧ right.kind = .constant)) :
    (binary arithmetic operator left right).outcome =
      (binaryRule arithmetic operator left right).outcome := by
  apply binary_of_unfolded
  by_cases leftConstant : left.kind = .constant
  · exact foldOver_of_not_constant _ (List.mem_cons_of_mem _ List.mem_cons_self)
      (fun rightConstant => varies ⟨leftConstant, rightConstant⟩) _
  · exact foldOver_of_not_constant _ List.mem_cons_self leftConstant _

theorem call_folded_or_kept {name : String}
    (simplified : (call arithmetic name first others).outcome = .ok result) :
    (∃ constant constants value, first = .const constant ∧ others = constants.map .const ∧
        result = .const value ∧
        arithmetic.callByName [] name (constant :: constants) = .ok value) ∨
      result = .call name first others := by
  rcases call_cases arithmetic simplified with ⟨value, folded, rfl⟩ | kept
  · obtain ⟨⟨constants, areOperands⟩, closed, -⟩ := foldOver_eq_some folded
    match constants, areOperands with
    | constant :: constants, areOperands =>
        obtain ⟨rfl, rfl⟩ := List.cons_eq_cons.mp areOperands
        rw [closedValue_call (closedValue_const _) (haveValues_consts _)] at closed
        exact .inl ⟨constant, constants, value, rfl, rfl, rfl, closed⟩
  · exact .inr kept

section Failures

theorem unary_fold_error {operator : UnaryOperator}
    (failed : (unary arithmetic operator operand).outcome = .error fault) :
    ∃ constant, operand = .const constant ∧
      arithmetic.unary operator constant = .error fault ∧ fault.isOrdinary = false := by
  rcases Traced.outcome_bind_eq_error.mp failed with failed | ⟨value?, -, failed⟩
  · obtain ⟨⟨constants, areOperands⟩, closed, foreign⟩ := foldOver_eq_error failed
    match constants, areOperands with
    | [constant], areOperands =>
        cases areOperands
        rw [closedValue_unary (closedValue_const constant)] at closed
        exact ⟨constant, rfl, closed, foreign⟩
  · cases value? <;> cases failed

theorem call_fold_error {name : String}
    (failed : (call arithmetic name first others).outcome = .error fault) :
    ∃ constant constants, first = .const constant ∧ others = constants.map .const ∧
      arithmetic.callByName [] name (constant :: constants) = .error fault ∧
      fault.isOrdinary = false := by
  rcases Traced.outcome_bind_eq_error.mp failed with failed | ⟨value?, -, failed⟩
  · obtain ⟨⟨constants, areOperands⟩, closed, foreign⟩ := foldOver_eq_error failed
    match constants, areOperands with
    | constant :: constants, areOperands =>
        obtain ⟨rfl, rfl⟩ := List.cons_eq_cons.mp areOperands
        rw [closedValue_call (closedValue_const _) (haveValues_consts _)] at closed
        exact ⟨constant, constants, rfl, rfl, closed, foreign⟩
  · cases value? <;> cases failed

variable (arithmetic) in
/-- Operators between two constants never fail, so folding them never does. -/
theorem exists_foldOver_binary (operator : BinaryOperator) (left right : Expr α) :
    ∃ value?, (foldOver arithmetic [left, right] (.binary operator left right)).outcome =
      .ok value? := by
  cases folded : (foldOver arithmetic [left, right] (.binary operator left right)).outcome with
  | ok value? => exact ⟨value?, rfl⟩
  | error fault =>
      obtain ⟨⟨constants, areOperands⟩, closed, -⟩ := foldOver_eq_error folded
      match constants, areOperands with
      | [leftConstant, rightConstant], areOperands =>
          cases areOperands
          rw [closedValue_binary (closedValue_const _) (closedValue_const _)] at closed
          cases closed

theorem exists_binary_of_rule {operator : BinaryOperator}
    (ruled : ∃ result, (binaryRule arithmetic operator left right).outcome = .ok result) :
    ∃ result, (binary arithmetic operator left right).outcome = .ok result := by
  obtain ⟨value?, folded⟩ := exists_foldOver_binary arithmetic operator left right
  rw [binary_outcome, folded]
  cases value? with
  | some value => exact ⟨.const value, rfl⟩
  | none => exact ruled

theorem exists_productRule (left right : Expr α) :
    ∃ result, (productRule arithmetic left right).outcome = .ok result := by
  unfold productRule
  split
  · exact ⟨_, rfl⟩
  split
  · exact ⟨_, rfl⟩
  split
  · exact ⟨_, rfl⟩
  dsimp only
  split
  · have summed : ∃ exponent, (sum arithmetic (asPower arithmetic left).2
        (asPower arithmetic right).2).outcome = .ok exponent := by
      rw [sum_outcome]
      exact exists_binary_of_rule ⟨_, rfl⟩
    obtain ⟨exponent, summed⟩ := summed
    exact ⟨_, Traced.outcome_bind_eq_ok.mpr ⟨exponent, summed, rfl⟩⟩
  · exact ⟨_, rfl⟩

/-- An operator between two operands always has a result. -/
theorem exists_binary (arithmetic : Arithmetic α) (operator : BinaryOperator)
    (left right : Expr α) :
    ∃ result, (binary arithmetic operator left right).outcome = .ok result := by
  apply exists_binary_of_rule
  cases operator with
  | multiply => exact exists_productRule left right
  | _ => exact ⟨_, rfl⟩

end Failures

end Nodes

end Simplification

end ExprCalculus
