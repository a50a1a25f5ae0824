import ExprCalculus.Proofs.Expansion.Distribution

/-!
# Expanding by rewriting

The rules of expanding square the terms of a sum and expand these squares like any other
expression.  A square may be much larger than the expression that it comes from, so its size
does not bound how often the rules are applied.  Still every expression has exactly one
result: the terms are expanded already, so a square of them leads to squares of their parts
only.
-/

namespace ExprCalculus

namespace Expr

variable {α : Type} (arithmetic : Arithmetic α)

mutual

/-- The rules of expanding: an expression is expanded to another in finitely many steps. -/
inductive Expands : Expr α → Expr α → Prop
  | const (value : α) : Expands (.const value) (.const value)
  | var (name : String) : Expands (.var name) (.var name)
  | unary {operand result : Expr α} (operator : UnaryOperator) :
      Expands operand result → Expands (.unary operator operand) (.unary operator result)
  | product {left right first second : Expr α} :
      Expands left first → Expands right second →
      Expands (.binary .multiply left right) (distribute first second)
  | squareOfSum {left right first second exponent firstSquare secondSquare : Expr α} :
      Expands left (first + second) → Expands right exponent →
      arithmetic.isConst (arithmetic.ofInt 2) exponent = true →
      Expands (first ^ (.const (arithmetic.ofInt 2) : Expr α)) firstSquare →
      Expands (second ^ (.const (arithmetic.ofInt 2) : Expr α)) secondSquare →
      Expands (.binary .power left right)
        (firstSquare + twiceProduct arithmetic first second + secondSquare)
  | squareOfDifference {left right first second exponent firstSquare secondSquare : Expr α} :
      Expands left (first - second) → Expands right exponent →
      arithmetic.isConst (arithmetic.ofInt 2) exponent = true →
      Expands (first ^ (.const (arithmetic.ofInt 2) : Expr α)) firstSquare →
      Expands (second ^ (.const (arithmetic.ofInt 2) : Expr α)) secondSquare →
      Expands (.binary .power left right)
        (firstSquare - twiceProduct arithmetic first second + secondSquare)
  | power {left right base exponent : Expr α} :
      Expands left base → Expands right exponent →
      (base.isSumOrDifference && arithmetic.isConst (arithmetic.ofInt 2) exponent) = false →
      Expands (.binary .power left right) (.binary .power base exponent)
  | binary {left right first second : Expr α} {operator : BinaryOperator} :
      operator ≠ .multiply → operator ≠ .power →
      Expands left first → Expands right second →
      Expands (.binary operator left right) (.binary operator first second)
  | call {first result : Expr α} {others results : List (Expr α)} (name : String) :
      Expands first result → ExpandsAll others results →
      Expands (.call name first others) (.call name result results)
  | integral {integrand result : Expr α} (name : String) :
      Expands integrand result → Expands (.integral integrand name) (.integral result name)

/-- Several expressions are expanded, one after the other. -/
inductive ExpandsAll : List (Expr α) → List (Expr α) → Prop
  | nil : ExpandsAll [] []
  | cons {expression result : Expr α} {rest results : List (Expr α)} :
      Expands expression result → ExpandsAll rest results →
      ExpandsAll (expression :: rest) (result :: results)

end

/-- A tolerance that accepts any number for two accepts two itself. -/
def AcceptsTwo : Prop :=
  ∀ value, arithmetic.near value (arithmetic.ofInt 2) = true →
    arithmetic.near (arithmetic.ofInt 2) (arithmetic.ofInt 2) = true

variable {arithmetic}

section Squares

variable {base exponent : Expr α}

theorem isConst_two (accepts : AcceptsTwo arithmetic)
    (two : arithmetic.isConst (arithmetic.ofInt 2) exponent = true) :
    arithmetic.isConst (arithmetic.ofInt 2) (.const (arithmetic.ofInt 2)) = true := by
  cases exponent with
  | const value => exact accepts value two
  | _ => cases two

/-- The square of a distributed expression is expanded by squaring its terms. -/
theorem expand_square (accepts : AcceptsTwo arithmetic)
    (two : arithmetic.isConst (arithmetic.ofInt 2) exponent = true)
    (given : Distributed arithmetic base) :
    (base ^ (.const (arithmetic.ofInt 2) : Expr α)).expand arithmetic =
      expandedSquare arithmetic base := by
  change (Expr.binary .power base (.const (arithmetic.ofInt 2))).expand arithmetic = _
  rw [expand_power, expand_of_distributed given, expand_of_distributed (distributed_const _),
    isConst_two accepts two, Bool.and_true]
  split
  · rfl
  next noSum =>
    unfold expandedSquare
    split
    · exact absurd rfl noSum
    · exact absurd rfl noSum
    · rfl

end Squares

section Existence

mutual

/-- The rules leave a distributed expression as it is. -/
theorem expands_of_distributed {expression : Expr α}
    (given : Distributed arithmetic expression) : Expands arithmetic expression expression := by
  match expression with
  | .const value => exact .const value
  | .var name => exact .var name
  | .unary operator operand =>
      exact .unary operator (expands_of_distributed (given.child List.mem_cons_self))
  | .binary operator left right =>
      have kept := (distributed_iff.mp given).1
      have first := expands_of_distributed given.leftOperand
      have second := expands_of_distributed given.rightOperand
      by_cases isProduct : operator = .multiply
      · subst isProduct
        have product := Expands.product first second
        rwa [distribute_of_undistributed kept] at product
      by_cases isPower : operator = .power
      · subst isPower
        refine .power first second (Bool.eq_false_iff.mpr fun square => ?_)
        obtain ⟨sum, two⟩ := Bool.and_eq_true_iff.mp square
        exact kept (.square sum two)
      · exact .binary isProduct isPower first second
  | .call name first others =>
      exact .call name (expands_of_distributed (given.child List.mem_cons_self))
        (expandsAll_of_distributed fun other member =>
          given.child (List.mem_cons_of_mem first member))
  | .integral integrand name =>
      exact .integral name (expands_of_distributed (given.child List.mem_cons_self))

theorem expandsAll_of_distributed {expressions : List (Expr α)}
    (given : ∀ expression ∈ expressions, Distributed arithmetic expression) :
    ExpandsAll arithmetic expressions expressions := by
  match expressions with
  | [] => exact .nil
  | expression :: rest =>
      obtain ⟨firstGiven, restGiven⟩ := List.forall_mem_cons.mp given
      exact .cons (expands_of_distributed firstGiven) (expandsAll_of_distributed restGiven)

end

variable {base exponent : Expr α}

/-- The rules write out the square of a distributed expression. -/
theorem expands_square (accepts : AcceptsTwo arithmetic)
    (two : arithmetic.isConst (arithmetic.ofInt 2) exponent = true)
    (given : Distributed arithmetic base) :
    Expands arithmetic (base ^ (.const (arithmetic.ofInt 2) : Expr α))
      (expandedSquare arithmetic base) := by
  have isTwo := isConst_two accepts two
  have itself := expands_of_distributed given
  fun_induction expandedSquare arithmetic base with
  | case1 first second firstIH secondIH =>
      exact .squareOfSum itself (.const _) isTwo
        (firstIH given.leftOperand (expands_of_distributed given.leftOperand))
        (secondIH given.rightOperand (expands_of_distributed given.rightOperand))
  | case2 first second firstIH secondIH =>
      exact .squareOfDifference itself (.const _) isTwo
        (firstIH given.leftOperand (expands_of_distributed given.leftOperand))
        (secondIH given.rightOperand (expands_of_distributed given.rightOperand))
  | case3 base noSum noDifference =>
      refine .power itself (.const _) ?_
      rw [isSumOrDifference_eq_false noSum noDifference, Bool.false_and]

/-- A power of an expanded base that is a sum or difference, with an exponent of two. -/
theorem expands_power_of_sum (accepts : AcceptsTwo arithmetic) {left right : Expr α}
    (baseExpands : Expands arithmetic left base)
    (exponentExpands : Expands arithmetic right exponent)
    (given : Distributed arithmetic base) (sum : base.isSumOrDifference = true)
    (two : arithmetic.isConst (arithmetic.ofInt 2) exponent = true) :
    Expands arithmetic (.binary .power left right) (expandedSquare arithmetic base) := by
  unfold isSumOrDifference at sum
  split at sum
  next first second =>
    exact .squareOfSum baseExpands exponentExpands two
      (expands_square accepts two given.leftOperand)
      (expands_square accepts two given.rightOperand)
  next first second =>
    exact .squareOfDifference baseExpands exponentExpands two
      (expands_square accepts two given.leftOperand)
      (expands_square accepts two given.rightOperand)
  next => cases sum

mutual

/-- Every expression is expanded in finitely many steps. -/
theorem expands_expand (accepts : AcceptsTwo arithmetic) (expression : Expr α) :
    Expands arithmetic expression (expression.expand arithmetic) := by
  match expression with
  | .const value => exact .const value
  | .var name => exact .var name
  | .unary operator operand => exact .unary operator (expands_expand accepts operand)
  | .binary operator left right =>
      have first := expands_expand accepts left
      have second := expands_expand accepts right
      by_cases isProduct : operator = .multiply
      · subst isProduct
        exact .product first second
      by_cases isPower : operator = .power
      · subst isPower
        rw [expand_power]
        split
        next square =>
          obtain ⟨sum, two⟩ := Bool.and_eq_true_iff.mp square
          exact expands_power_of_sum accepts first second (distributed_expand left) sum two
        next noSquare => exact .power first second (Bool.eq_false_iff.mpr noSquare)
      · rw [expand_binary isProduct isPower]
        exact .binary isProduct isPower first second
  | .call name first others =>
      exact .call name (expands_expand accepts first) (expandsAll_expandAll accepts others)
  | .integral integrand name => exact .integral name (expands_expand accepts integrand)

theorem expandsAll_expandAll (accepts : AcceptsTwo arithmetic) (expressions : List (Expr α)) :
    ExpandsAll arithmetic expressions (expandAll arithmetic expressions) := by
  match expressions with
  | [] => exact .nil
  | expression :: rest =>
      exact .cons (expands_expand accepts expression) (expandsAll_expandAll accepts rest)

end

end Existence

section Uniqueness

theorem distributed_of_eq_expand {expression result : Expr α}
    (same : result = expression.expand arithmetic) : Distributed arithmetic result :=
  same ▸ distributed_expand expression

mutual

/-- The rules have no other result than the expanded form. -/
theorem Expands.eq_expand (accepts : AcceptsTwo arithmetic) {expression result : Expr α}
    (expands : Expands arithmetic expression result) :
    result = expression.expand arithmetic := by
  match expands with
  | .const value => rfl
  | .var name => rfl
  | .unary operator operandExpands => rw [expand, ← operandExpands.eq_expand accepts]
  | .product firstExpands secondExpands =>
      rw [expand_product, ← firstExpands.eq_expand accepts, ← secondExpands.eq_expand accepts]
  | .squareOfSum baseExpands exponentExpands two firstExpands secondExpands =>
      have isBase := baseExpands.eq_expand accepts
      have given := distributed_of_eq_expand isBase
      rw [expand_power, ← isBase, ← exponentExpands.eq_expand accepts, two,
        firstExpands.eq_expand accepts, secondExpands.eq_expand accepts,
        expand_square accepts two given.leftOperand, expand_square accepts two given.rightOperand]
      rfl
  | .squareOfDifference baseExpands exponentExpands two firstExpands secondExpands =>
      have isBase := baseExpands.eq_expand accepts
      have given := distributed_of_eq_expand isBase
      rw [expand_power, ← isBase, ← exponentExpands.eq_expand accepts, two,
        firstExpands.eq_expand accepts, secondExpands.eq_expand accepts,
        expand_square accepts two given.leftOperand, expand_square accepts two given.rightOperand]
      rfl
  | .power baseExpands exponentExpands noSquare =>
      rw [expand_power, ← baseExpands.eq_expand accepts, ← exponentExpands.eq_expand accepts,
        noSquare]
      rfl
  | .binary noProduct noPower firstExpands secondExpands =>
      rw [expand_binary noProduct noPower, ← firstExpands.eq_expand accepts,
        ← secondExpands.eq_expand accepts]
  | .call name firstExpands othersExpand =>
      rw [expand, ← firstExpands.eq_expand accepts, ← othersExpand.eq_expandAll accepts]
  | .integral name integrandExpands => rw [expand, ← integrandExpands.eq_expand accepts]

theorem ExpandsAll.eq_expandAll (accepts : AcceptsTwo arithmetic)
    {expressions results : List (Expr α)} (expands : ExpandsAll arithmetic expressions results) :
    results = expandAll arithmetic expressions := by
  match expands with
  | .nil => rfl
  | .cons firstExpands restExpands =>
      rw [expandAll, ← firstExpands.eq_expand accepts, ← restExpands.eq_expandAll accepts]

end

end Uniqueness

end Expr

namespace Doubles

open Binary64

/-- The distance of two from itself is zero, and no distance is less. -/
theorem acceptsTwo (settings : Settings) : Expr.AcceptsTwo (arithmetic settings) := by
  intro value near
  have isNear : (value - ofInt 2).abs < settings.epsilon := of_decide_eq_true near
  obtain ⟨defined, tolerance, below⟩ := lt_iff.mp isNear
  rw [isNaN_abs] at defined
  rw [rank_abs _ defined] at below
  have itself : (ofInt 2 - ofInt 2).abs.isNaN = false ∧ rank (ofInt 2 - ofInt 2).abs = 0 := by
    decide +kernel
  refine decide_eq_true (lt_iff.mpr ⟨itself.1, tolerance, ?_⟩)
  change rank (ofInt 2 - ofInt 2).abs < _
  rw [itself.2]
  exact lt_of_le_of_lt (abs_nonneg _) below

end Doubles

namespace Expr

/-- Expanding ends with one result for every expression, however large the squares are that
it makes.  The result has no product with a sum or difference as a factor and no square of
one, and expanding it again changes nothing. -/
theorem expand_terminates_distributed (settings : Settings) (expression : Expr Float) :
    (∀ result, Expands (Doubles.arithmetic settings) expression result ↔
        result = expression.expand (Doubles.arithmetic settings)) ∧
      Distributed (Doubles.arithmetic settings)
        (expression.expand (Doubles.arithmetic settings)) ∧
      (expression.expand (Doubles.arithmetic settings)).expand (Doubles.arithmetic settings) =
        expression.expand (Doubles.arithmetic settings) := by
  have accepts := Doubles.acceptsTwo settings
  refine ⟨fun result => ⟨fun expands => expands.eq_expand accepts, ?_⟩,
    distributed_expand expression, expand_of_distributed (distributed_expand expression)⟩
  rintro rfl
  exact expands_expand accepts expression

end Expr

end ExprCalculus
