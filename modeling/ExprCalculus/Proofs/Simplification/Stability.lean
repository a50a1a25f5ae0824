import ExprCalculus.Proofs.Simplification.Runs
import ExprCalculus.Proofs.Simplification.Terms

/-!
# Stable expressions

An expression is stable if at every node the rule for that node, applied to the
operands as they stand, gives the node back.  A stable expression is its own
simplified form, and the parts of a stable expression are stable; the latter is
what makes the notion useful, since the rules for products and sums rebuild their
result from parts of the operands.
-/

namespace ExprCalculus

namespace Simplification

variable {α : Type} (arithmetic : Arithmetic α)

/-- Operands that are not all constant are not folded. -/
theorem foldOver_of_not_constant {operands : List (Expr α)} {operand : Expr α}
    (member : operand ∈ operands) (notConstant : operand.kind ≠ .constant)
    (expression : Expr α) :
    (foldOver arithmetic operands expression).outcome = .ok none := by
  have notAll : ¬ operands.all (fun operand => operand.kind = .constant) = true := by
    intro all
    have constant := List.all_eq_true.mp all operand member
    exact notConstant (of_decide_eq_true constant)
  rw [foldOver, if_neg notAll]
  rfl

section Outcomes

variable {operator : BinaryOperator} {left right result : Expr α}

/-- A node with a folded value becomes a constant, and what its rule makes of it
otherwise. -/
theorem cases_of_folding {folded : Except (EvaluationFault α) (Option α)} {ruled : Expr α}
    (made : folded.map (fun | some value => .const value | none => ruled) = .ok result) :
    (∃ value, folded = .ok (some value) ∧ result = .const value) ∨ result = ruled := by
  cases folded with
  | error fault => cases made
  | ok value? =>
      cases value? with
      | some value =>
          cases made
          exact .inl ⟨value, rfl, rfl⟩
      | none =>
          cases made
          exact .inr rfl

theorem unary_outcome (operator : UnaryOperator) (operand : Expr α) :
    (unary arithmetic operator operand).outcome =
      (foldOver arithmetic [operand] (.unary operator operand)).outcome.map fun
        | some value => .const value
        | none => unaryRule operator operand := by
  rw [unary, Traced.outcome_bind]
  cases (foldOver arithmetic [operand] (.unary operator operand)).outcome with
  | error fault => rfl
  | ok folded => cases folded <;> rfl

theorem binary_outcome (operator : BinaryOperator) (left right : Expr α) :
    (binary arithmetic operator left right).outcome =
      (foldOver arithmetic [left, right] (.binary operator left right)).outcome.bind fun
        | some value => .ok (.const value)
        | none => (binaryRule arithmetic operator left right).outcome := by
  rw [binary, Traced.outcome_bind]
  cases (foldOver arithmetic [left, right] (.binary operator left right)).outcome with
  | error fault => rfl
  | ok folded => cases folded <;> rfl

theorem unary_cases {operator : UnaryOperator} {operand : Expr α}
    (simplified : (unary arithmetic operator operand).outcome = .ok result) :
    (∃ value, (foldOver arithmetic [operand] (.unary operator operand)).outcome =
        .ok (some value) ∧ result = .const value) ∨
      result = unaryRule operator operand := by
  rw [unary_outcome] at simplified
  exact cases_of_folding simplified

theorem call_outcome (name : String) (first : Expr α) (others : List (Expr α)) :
    (call arithmetic name first others).outcome =
      (foldOver arithmetic (first :: others) (.call name first others)).outcome.map fun
        | some value => .const value
        | none => .call name first others := by
  rw [call, Traced.outcome_bind]
  cases (foldOver arithmetic (first :: others) (.call name first others)).outcome with
  | error fault => rfl
  | ok folded => cases folded <;> rfl

theorem call_cases {name : String} {first : Expr α} {others : List (Expr α)}
    (simplified : (call arithmetic name first others).outcome = .ok result) :
    (∃ value, (foldOver arithmetic (first :: others) (.call name first others)).outcome =
        .ok (some value) ∧ result = .const value) ∨
      result = .call name first others := by
  rw [call_outcome] at simplified
  exact cases_of_folding simplified

/-- The sum of two exponents is an ordinary sum. -/
theorem sum_outcome (left right : Expr α) :
    (sum arithmetic left right).outcome = (binary arithmetic .add left right).outcome := by
  rw [sum, binary, Traced.outcome_bind, Traced.outcome_bind]
  change (foldOver arithmetic [left, right] (.binary .add left right)).outcome.bind _ = _
  cases (foldOver arithmetic [left, right] (.binary .add left right)).outcome with
  | error fault => rfl
  | ok folded => cases folded <;> rfl

/-- Without a folded value the rule of the operator decides. -/
theorem binary_of_unfolded
    (unfolded : (foldOver arithmetic [left, right] (.binary operator left right)).outcome =
      .ok none) :
    (binary arithmetic operator left right).outcome =
      (binaryRule arithmetic operator left right).outcome := by
  rw [binary_outcome, unfolded]
  rfl

/-- An operator between simplified operands gives the folded constant, or what its rule
gives when nothing is folded. -/
theorem binary_cases (simplified : (binary arithmetic operator left right).outcome = .ok result) :
    (∃ value, (foldOver arithmetic [left, right] (.binary operator left right)).outcome =
        .ok (some value) ∧ result = .const value) ∨
      (foldOver arithmetic [left, right] (.binary operator left right)).outcome = .ok none ∧
        (binaryRule arithmetic operator left right).outcome = .ok result := by
  rw [binary_outcome] at simplified
  cases folded : (foldOver arithmetic [left, right] (.binary operator left right)).outcome with
  | error fault =>
      rw [folded] at simplified
      cases simplified
  | ok value? =>
      rw [folded] at simplified
      cases value? with
      | some value =>
          cases simplified
          exact .inl ⟨value, rfl, rfl⟩
      | none => exact .inr ⟨rfl, simplified⟩

end Outcomes

mutual

/-- Every node of the expression is what its rule makes of its operands. -/
def Stable : Expr α → Prop
  | .const _ => True
  | .var _ => True
  | .unary operator operand =>
      Stable operand ∧
        (unary arithmetic operator operand).outcome = .ok (.unary operator operand)
  | .binary operator left right =>
      Stable left ∧ Stable right ∧
        (binary arithmetic operator left right).outcome = .ok (.binary operator left right)
  | .call name first others =>
      Stable first ∧ StableAll others ∧
        (call arithmetic name first others).outcome = .ok (.call name first others)
  | .integral integrand _ => Stable integrand

def StableAll : List (Expr α) → Prop
  | [] => True
  | expression :: rest => Stable expression ∧ StableAll rest

end

mutual

/-- A stable expression is its own simplified form. -/
theorem Stable.simplify {expression : Expr α} (stable : Stable arithmetic expression) :
    (expression.simplify arithmetic).outcome = .ok expression := by
  match expression, stable with
  | .const value, _ => exact Expr.simplify_const_eq_ok.mpr rfl
  | .var name, _ => exact Expr.simplify_var_eq_ok.mpr rfl
  | .unary operator operand, ⟨operandStable, fixed⟩ =>
      exact Expr.simplify_unary_eq_ok.mpr ⟨operand, operandStable.simplify, fixed⟩
  | .binary operator left right, ⟨leftStable, rightStable, fixed⟩ =>
      exact Expr.simplify_binary_eq_ok.mpr
        ⟨left, right, leftStable.simplify, rightStable.simplify, fixed⟩
  | .call name first others, ⟨firstStable, othersStable, fixed⟩ =>
      exact Expr.simplify_call_eq_ok.mpr
        ⟨first, others, firstStable.simplify, othersStable.simplify, fixed⟩
  | .integral integrand name, stable =>
      have integrandStable : Stable arithmetic integrand := stable
      exact Expr.simplify_integral_eq_ok.mpr ⟨integrand, integrandStable.simplify, rfl⟩

theorem StableAll.simplify {expressions : List (Expr α)}
    (stable : StableAll arithmetic expressions) :
    (Expr.simplifyAll arithmetic expressions).outcome = .ok expressions := by
  match expressions, stable with
  | [], _ => exact Expr.simplifyAll_eq_ok.mpr .nil
  | expression :: rest, ⟨firstStable, restStable⟩ =>
      exact Expr.simplifyAll_eq_ok.mpr
        (.cons firstStable.simplify (Expr.simplifyAll_eq_ok.mp restStable.simplify))

end

section Parts

variable {expression : Expr α}

theorem stableAll_iff {expressions : List (Expr α)} :
    StableAll arithmetic expressions ↔
      ∀ expression ∈ expressions, Stable arithmetic expression := by
  induction expressions with
  | nil => exact ⟨fun _ => nofun, fun _ => trivial⟩
  | cons first rest ih => rw [StableAll, List.forall_mem_cons, ih]

theorem Stable.of_mem_children (stable : Stable arithmetic expression) :
    ∀ child ∈ expression.children, Stable arithmetic child := by
  cases expression with
  | const value => exact List.forall_mem_nil _
  | var name => exact List.forall_mem_nil _
  | unary operator operand => exact List.forall_mem_singleton.mpr stable.1
  | binary operator left right =>
      exact List.forall_mem_cons.mpr ⟨stable.1, List.forall_mem_singleton.mpr stable.2.1⟩
  | call name first others =>
      exact List.forall_mem_cons.mpr ⟨stable.1, (stableAll_iff arithmetic).mp stable.2.1⟩
  | integral integrand name => exact List.forall_mem_singleton.mpr stable

/-- The bases of the terms of a stable expression are stable. -/
theorem Stable.base_flatten {scale : α} {term : Term α} (stable : Stable arithmetic expression)
    (member : term ∈ Term.flatten arithmetic scale expression) :
    ∀ base ∈ term.base?, Stable arithmetic base :=
  Term.base_flatten_of_children arithmetic scale
    (fun _ parentStable => parentStable.of_mem_children) stable member

end Parts

end Simplification

end ExprCalculus
