import ExprCalculus.Proofs.Doubles.Tolerance
import ExprCalculus.Proofs.Rebuilding.Polynomial
import ExprCalculus.Proofs.Rebuilding.Somewhere

/-!
# Distributed expressions

An expanded expression has no product with a sum or difference as a factor and no square of
one, and expanding leaves such an expression as it is.  That is why the squares of the terms
of a sum, which are made while expanding, may themselves be expanded: their bases are
already expanded, so each of these squares is smaller than the one before.
-/

namespace ExprCalculus

namespace Expr

variable {α : Type}

/-- A node that expanding would rewrite: a product with a sum or difference as a factor, or
the square of a sum or difference. -/
inductive Undistributed (arithmetic : Arithmetic α) : Expr α → Prop
  | leftFactor {left right : Expr α} (sum : left.isSumOrDifference = true) :
      Undistributed arithmetic (.binary .multiply left right)
  | rightFactor {left right : Expr α} (sum : right.isSumOrDifference = true) :
      Undistributed arithmetic (.binary .multiply left right)
  | square {base exponent : Expr α} (sum : base.isSumOrDifference = true)
      (two : arithmetic.isConst (arithmetic.ofInt 2) exponent = true) :
      Undistributed arithmetic (.binary .power base exponent)

/-- No node is a product with a sum or difference as a factor or the square of one. -/
def Distributed (arithmetic : Arithmetic α) (expression : Expr α) : Prop :=
  ¬ Somewhere (Undistributed arithmetic) expression

variable {arithmetic : Arithmetic α}

section Nodes

variable {expression operand left right base exponent first : Expr α} {others : List (Expr α)}

theorem distributed_iff : Distributed arithmetic expression ↔
    ¬ Undistributed arithmetic expression ∧
      ∀ child ∈ expression.children, Distributed arithmetic child := by
  unfold Distributed
  rw [somewhere_iff]
  push Not
  rfl

theorem Distributed.child (given : Distributed arithmetic expression)
    (below : operand ∈ expression.children) : Distributed arithmetic operand :=
  (distributed_iff.mp given).2 operand below

theorem distributed_const (value : α) : Distributed arithmetic (.const value) :=
  distributed_iff.mpr ⟨nofun, nofun⟩

theorem distributed_var (name : String) : Distributed arithmetic (.var name) :=
  distributed_iff.mpr ⟨nofun, nofun⟩

theorem Distributed.unary (given : Distributed arithmetic operand) (operator : UnaryOperator) :
    Distributed arithmetic (.unary operator operand) :=
  distributed_iff.mpr ⟨nofun, List.forall_mem_singleton.mpr given⟩

/-- An operator between distributed operands, unless it is a product or a square to
distribute. -/
theorem Distributed.binary (leftGiven : Distributed arithmetic left)
    (rightGiven : Distributed arithmetic right) {operator : BinaryOperator}
    (kept : ¬ Undistributed arithmetic (.binary operator left right)) :
    Distributed arithmetic (.binary operator left right) :=
  distributed_iff.mpr
    ⟨kept, List.forall_mem_cons.mpr ⟨leftGiven, List.forall_mem_singleton.mpr rightGiven⟩⟩

theorem Distributed.call (firstGiven : Distributed arithmetic first)
    (othersGiven : ∀ other ∈ others, Distributed arithmetic other) (name : String) :
    Distributed arithmetic (.call name first others) :=
  distributed_iff.mpr ⟨nofun, List.forall_mem_cons.mpr ⟨firstGiven, othersGiven⟩⟩

theorem Distributed.integral (given : Distributed arithmetic operand) (name : String) :
    Distributed arithmetic (.integral operand name) :=
  distributed_iff.mpr ⟨nofun, List.forall_mem_singleton.mpr given⟩

theorem Distributed.leftOperand {operator : BinaryOperator}
    (given : Distributed arithmetic (.binary operator left right)) :
    Distributed arithmetic left :=
  given.child List.mem_cons_self

theorem Distributed.rightOperand {operator : BinaryOperator}
    (given : Distributed arithmetic (.binary operator left right)) :
    Distributed arithmetic right :=
  given.child (List.mem_cons_of_mem _ List.mem_cons_self)

theorem not_undistributed_binary {operator : BinaryOperator} (noProduct : operator ≠ .multiply)
    (noPower : operator ≠ .power) : ¬ Undistributed arithmetic (.binary operator left right) := by
  rintro (_ | _ | _)
  · exact noProduct rfl
  · exact noProduct rfl
  · exact noPower rfl

theorem Distributed.add (leftGiven : Distributed arithmetic left)
    (rightGiven : Distributed arithmetic right) : Distributed arithmetic (left + right) :=
  leftGiven.binary rightGiven (not_undistributed_binary (by decide) (by decide))

theorem Distributed.sub (leftGiven : Distributed arithmetic left)
    (rightGiven : Distributed arithmetic right) : Distributed arithmetic (left - right) :=
  leftGiven.binary rightGiven (not_undistributed_binary (by decide) (by decide))

theorem not_undistributed_product (leftKept : left.isSumOrDifference = false)
    (rightKept : right.isSumOrDifference = false) :
    ¬ Undistributed arithmetic (.binary .multiply left right) := by
  rintro (sum | sum)
  · exact absurd sum (by simp [leftKept])
  · exact absurd sum (by simp [rightKept])

theorem not_undistributed_power
    (kept : base.isSumOrDifference = true →
      arithmetic.isConst (arithmetic.ofInt 2) exponent = false) :
    ¬ Undistributed arithmetic (.binary .power base exponent) := by
  rintro ⟨⟩
  next sum two => exact absurd two (by simp [kept sum])

end Nodes

section Products

variable {left right : Expr α}

/-- Whether an expression is a sum or a difference, by its form. -/
theorem isSumOrDifference_eq_false (noSum : ∀ first second, left ≠ .binary .add first second)
    (noDifference : ∀ first second, left ≠ .binary .subtract first second) :
    left.isSumOrDifference = false := by
  unfold isSumOrDifference
  split
  · exact absurd rfl (noSum _ _)
  · exact absurd rfl (noDifference _ _)
  · rfl

/-- A product without a sum or difference as a factor is left as it is. -/
theorem distribute_of_undistributed
    (kept : ¬ Undistributed arithmetic (.binary .multiply left right)) :
    distribute left right = .binary .multiply left right := by
  unfold distribute
  split
  · exact absurd (.leftFactor rfl) kept
  · exact absurd (.leftFactor rfl) kept
  unfold distributeRight
  split
  · exact absurd (.rightFactor rfl) kept
  · exact absurd (.rightFactor rfl) kept
  · rfl

theorem distributed_distributeRight (leftKept : left.isSumOrDifference = false)
    (leftGiven : Distributed arithmetic left) (rightGiven : Distributed arithmetic right) :
    Distributed arithmetic (distributeRight left right) := by
  fun_induction distributeRight left right with
  | case1 first second firstIH secondIH =>
      exact (firstIH rightGiven.leftOperand).add (secondIH rightGiven.rightOperand)
  | case2 first second firstIH secondIH =>
      exact (firstIH rightGiven.leftOperand).sub (secondIH rightGiven.rightOperand)
  | case3 right noSum noDifference =>
      have rightKept := isSumOrDifference_eq_false noSum noDifference
      exact leftGiven.binary rightGiven (not_undistributed_product leftKept rightKept)

/-- The product of distributed expressions, pushed through their sums, is distributed. -/
theorem distributed_distribute (leftGiven : Distributed arithmetic left)
    (rightGiven : Distributed arithmetic right) :
    Distributed arithmetic (distribute left right) := by
  fun_induction distribute left right with
  | case1 first second right firstIH secondIH =>
      exact (firstIH leftGiven.leftOperand rightGiven).add
        (secondIH leftGiven.rightOperand rightGiven)
  | case2 first second right firstIH secondIH =>
      exact (firstIH leftGiven.leftOperand rightGiven).sub
        (secondIH leftGiven.rightOperand rightGiven)
  | case3 left right noSum noDifference =>
      have leftKept := isSumOrDifference_eq_false noSum noDifference
      exact distributed_distributeRight leftKept leftGiven rightGiven

theorem distributed_twiceProduct (leftGiven : Distributed arithmetic left)
    (rightGiven : Distributed arithmetic right) :
    Distributed arithmetic (twiceProduct arithmetic left right) :=
  distributed_distribute (distributed_distribute (distributed_const _) leftGiven) rightGiven

/-- The square of a distributed expression, with the squares of sums written out, is
distributed. -/
theorem distributed_expandedSquare {base : Expr α} (given : Distributed arithmetic base) :
    Distributed arithmetic (expandedSquare arithmetic base) := by
  fun_induction expandedSquare arithmetic base with
  | case1 first second firstIH secondIH =>
      have twice := distributed_twiceProduct given.leftOperand given.rightOperand
      exact ((firstIH given.leftOperand).add twice).add (secondIH given.rightOperand)
  | case2 first second firstIH secondIH =>
      have twice := distributed_twiceProduct given.leftOperand given.rightOperand
      exact ((firstIH given.leftOperand).sub twice).add (secondIH given.rightOperand)
  | case3 base noSum noDifference =>
      have kept := isSumOrDifference_eq_false noSum noDifference
      exact given.binary (distributed_const _)
        (not_undistributed_power fun sum => absurd sum (by simp [kept]))

end Products

section Expanding

theorem expand_product (left right : Expr α) :
    (Expr.binary .multiply left right).expand arithmetic =
      distribute (left.expand arithmetic) (right.expand arithmetic) :=
  rfl

theorem expand_power (left right : Expr α) :
    (Expr.binary .power left right).expand arithmetic =
      if (left.expand arithmetic).isSumOrDifference &&
          arithmetic.isConst (arithmetic.ofInt 2) (right.expand arithmetic) then
        expandedSquare arithmetic (left.expand arithmetic)
      else
        .binary .power (left.expand arithmetic) (right.expand arithmetic) :=
  rfl

theorem expand_binary {operator : BinaryOperator} (noProduct : operator ≠ .multiply)
    (noPower : operator ≠ .power) (left right : Expr α) :
    (Expr.binary operator left right).expand arithmetic =
      .binary operator (left.expand arithmetic) (right.expand arithmetic) := by
  cases operator with
  | multiply => exact absurd rfl noProduct
  | power => exact absurd rfl noPower
  | _ => rfl

theorem expandAll_eq_map (others : List (Expr α)) :
    expandAll arithmetic others = others.map (expand arithmetic) := by
  induction others with
  | nil => rfl
  | cons other rest ih => rw [expandAll, List.map_cons, ih]

theorem kind_distribute (left right : Expr α) : (distribute left right).kind = .binary := by
  unfold distribute
  split
  · rfl
  · rfl
  · unfold distributeRight
    split <;> rfl

theorem kind_expandedSquare (base : Expr α) :
    (expandedSquare arithmetic base).kind = .binary := by
  unfold expandedSquare
  split <;> rfl

/-- Expanding keeps the kind of an expression. -/
theorem kind_expand (expression : Expr α) :
    (expression.expand arithmetic).kind = expression.kind := by
  cases expression with
  | binary operator left right =>
      by_cases isProduct : operator = .multiply
      · subst isProduct
        exact kind_distribute _ _
      by_cases isPower : operator = .power
      · subst isPower
        rw [expand_power]
        split
        · exact kind_expandedSquare _
        · rfl
      · rw [expand_binary isProduct isPower]
        rfl
  | _ => rfl

/-- Expanding gives a distributed expression. -/
theorem distributed_expand (expression : Expr α) :
    Distributed arithmetic (expression.expand arithmetic) := by
  match expression with
  | .const value => exact distributed_const value
  | .var name => exact distributed_var name
  | .unary operator operand => exact (distributed_expand operand).unary operator
  | .binary operator left right =>
      have leftGiven := distributed_expand left
      have rightGiven := distributed_expand right
      by_cases isProduct : operator = .multiply
      · subst isProduct
        rw [expand_product]
        exact distributed_distribute leftGiven rightGiven
      by_cases isPower : operator = .power
      · subst isPower
        rw [expand_power]
        split
        · exact distributed_expandedSquare leftGiven
        next noSquare =>
          refine leftGiven.binary rightGiven (not_undistributed_power fun sum => ?_)
          simpa [sum] using noSquare
      · rw [expand_binary isProduct isPower]
        exact leftGiven.binary rightGiven (not_undistributed_binary isProduct isPower)
  | .call name first others =>
      unfold expand
      rw [expandAll_eq_map]
      refine (distributed_expand first).call (List.forall_mem_map.mpr fun other member => ?_) name
      exact distributed_expand other
  | .integral integrand name => exact (distributed_expand integrand).integral name

/-- Expanding leaves a distributed expression as it is. -/
theorem expand_of_distributed {expression : Expr α} (given : Distributed arithmetic expression) :
    expression.expand arithmetic = expression := by
  match expression with
  | .const value => rfl
  | .var name => rfl
  | .unary operator operand =>
      rw [expand, expand_of_distributed (given.child List.mem_cons_self)]
  | .binary operator left right =>
      have kept := (distributed_iff.mp given).1
      have leftSame := expand_of_distributed given.leftOperand
      have rightSame := expand_of_distributed given.rightOperand
      by_cases isProduct : operator = .multiply
      · subst isProduct
        rw [expand_product, leftSame, rightSame, distribute_of_undistributed kept]
      by_cases isPower : operator = .power
      · subst isPower
        rw [expand_power, leftSame, rightSame]
        refine if_neg fun square => ?_
        obtain ⟨sum, two⟩ := Bool.and_eq_true_iff.mp square
        exact kept (.square sum two)
      · rw [expand_binary isProduct isPower, leftSame, rightSame]
  | .call name first others =>
      rw [expand, expand_of_distributed (given.child List.mem_cons_self), expandAll_eq_map]
      have kept := List.map_congr_left fun other (member : other ∈ others) =>
        expand_of_distributed (given.child (List.mem_cons_of_mem first member))
      rw [kept, List.map_id']
  | .integral integrand name =>
      rw [expand, expand_of_distributed (given.child List.mem_cons_self)]

end Expanding

end Expr

end ExprCalculus
