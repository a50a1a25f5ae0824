import ExprCalculus.Proofs.Simplification.Stability

/-!
# Properties that the rules keep

The rules for operators take their operands apart and put the parts together again with
constants, signs and operators.  A property that passes from an expression to its parts
and survives being put together in this way therefore passes from the operands to what
the rules make of them.  Names of variables, calls and unknown integrals are never made
up, so nothing is asked about those.
-/

namespace ExprCalculus

variable {α : Type}

/-- A property that passes to the parts of an expression and survives constants, signs
and operators. -/
structure Rebuilding (holds : Expr α → Prop) : Prop where
  const (value : α) : holds (.const value)
  negate {operand : Expr α} (given : holds operand) : holds (.unary .negate operand)
  binary {left right : Expr α} (operator : BinaryOperator) (leftGiven : holds left)
    (rightGiven : holds right) : holds (.binary operator left right)
  child {parent : Expr α} (given : holds parent) : ∀ child ∈ parent.children, holds child

namespace Rebuilding

variable {holds : Expr α → Prop} (rebuilding : Rebuilding holds) (arithmetic : Arithmetic α)
include rebuilding

section Parts

variable {operator : BinaryOperator} {left right : Expr α}

theorem below_unary {operator : UnaryOperator} {operand : Expr α}
    (given : holds (.unary operator operand)) : holds operand :=
  rebuilding.child given operand List.mem_cons_self

theorem below_left (given : holds (.binary operator left right)) : holds left :=
  rebuilding.child given left List.mem_cons_self

theorem below_right (given : holds (.binary operator left right)) : holds right :=
  rebuilding.child given right (List.mem_cons_of_mem _ List.mem_cons_self)

end Parts

section Terms

variable {terms : List (Term α)}

theorem toExpr (coefficient : α) {base? : Option (Expr α)} (given : ∀ base ∈ base?, holds base) :
    holds (Term.toExpr arithmetic coefficient base?) := by
  cases base? with
  | none => exact rebuilding.const coefficient
  | some base =>
      have baseGiven := given base rfl
      rw [Term.toExpr]
      split
      · exact baseGiven
      split
      · exact rebuilding.negate baseGiven
      · exact rebuilding.binary .multiply (rebuilding.const coefficient) baseGiven

theorem foldl_appendTo {sum : Expr α} (sumGiven : holds sum)
    (given : ∀ term ∈ terms, ∀ base ∈ term.base?, holds base) :
    holds (terms.foldl (Term.appendTo arithmetic) sum) := by
  induction terms generalizing sum with
  | nil => exact sumGiven
  | cons term rest ih =>
      obtain ⟨termGiven, restGiven⟩ := List.forall_mem_cons.mp given
      refine ih ?_ restGiven
      unfold Term.appendTo
      split
      · exact rebuilding.binary .subtract sumGiven (rebuilding.toExpr arithmetic _ termGiven)
      · exact rebuilding.binary .add sumGiven (rebuilding.toExpr arithmetic _ termGiven)

/-- A sum of terms has the property if their bases have it. -/
theorem join (given : ∀ term ∈ terms, ∀ base ∈ term.base?, holds base) :
    holds (Term.join arithmetic terms) := by
  cases terms with
  | nil => exact rebuilding.const _
  | cons first rest =>
      obtain ⟨firstGiven, restGiven⟩ := List.forall_mem_cons.mp given
      exact rebuilding.foldl_appendTo arithmetic
        (rebuilding.toExpr arithmetic _ firstGiven) restGiven

theorem base_split {expression : Expr α} (given : holds expression) :
    ∀ term ∈ Term.split arithmetic expression, ∀ base ∈ term.base?, holds base := by
  intro term member
  obtain ⟨other, found, same⟩ := Term.base_of_mem_merge arithmetic member
  rw [same]
  exact Term.base_flatten_of_children arithmetic arithmetic.one
    (fun parent parentGiven => rebuilding.child parentGiven) given found

theorem collect {expression : Expr α} (given : holds expression) :
    holds (Term.collect arithmetic expression) :=
  rebuilding.join arithmetic (rebuilding.base_split arithmetic given)

end Terms

section Rules

open Simplification

variable {left right result : Expr α}

theorem unaryRule {operator : UnaryOperator} {operand : Expr α}
    (given : holds (.unary operator operand)) : holds (unaryRule operator operand) := by
  unfold Simplification.unaryRule
  split
  · exact rebuilding.below_unary (rebuilding.below_unary given)
  · exact given

variable (leftGiven : holds left) (rightGiven : holds right)
include leftGiven rightGiven

theorem sumRule : holds (sumRule arithmetic left right) := by
  unfold Simplification.sumRule
  split
  · exact rightGiven
  split
  · exact leftGiven
  · exact rebuilding.collect arithmetic (rebuilding.binary .add leftGiven rightGiven)

theorem differenceRule : holds (differenceRule arithmetic left right) := by
  unfold Simplification.differenceRule
  split
  · exact leftGiven
  split
  · exact rebuilding.const _
  · exact rebuilding.collect arithmetic (rebuilding.binary .subtract leftGiven rightGiven)

theorem quotientRule : holds (quotientRule arithmetic left right) := by
  unfold Simplification.quotientRule
  split
  · exact rebuilding.const _
  split
  · exact leftGiven
  split
  · exact rebuilding.const _
  · exact rebuilding.binary .divide leftGiven rightGiven

theorem powerRule : holds (powerRule arithmetic left right) := by
  unfold Simplification.powerRule
  split
  · exact rebuilding.const _
  split
  · exact leftGiven
  split
  · exact rebuilding.const _
  split
  · exact rebuilding.const _
  · exact rebuilding.binary .power leftGiven rightGiven

omit leftGiven rightGiven in
theorem asPower {expression : Expr α} (given : holds expression) :
    holds (asPower arithmetic expression).1 ∧ holds (asPower arithmetic expression).2 := by
  unfold Simplification.asPower
  split
  · exact ⟨rebuilding.below_left given, rebuilding.below_right given⟩
  · exact ⟨given, rebuilding.const _⟩

theorem ofSum (made : (sum arithmetic left right).outcome = .ok result) : holds result := by
  rw [sum_outcome] at made
  rcases binary_cases arithmetic made with ⟨value, -, rfl⟩ | ⟨-, ruled⟩
  · exact rebuilding.const value
  · cases ruled
    exact rebuilding.sumRule arithmetic leftGiven rightGiven

theorem productRule (made : (productRule arithmetic left right).outcome = .ok result) :
    holds result := by
  unfold Simplification.productRule at made
  split at made
  · cases made
    exact rebuilding.const _
  split at made
  · cases made
    exact rightGiven
  split at made
  · cases made
    exact leftGiven
  dsimp only at made
  split at made
  next =>
    obtain ⟨exponent, summed, raised⟩ := Traced.outcome_bind_eq_ok.mp made
    cases raised
    obtain ⟨baseGiven, leftExponentGiven⟩ := rebuilding.asPower arithmetic leftGiven
    obtain ⟨-, rightExponentGiven⟩ := rebuilding.asPower arithmetic rightGiven
    exact rebuilding.powerRule arithmetic baseGiven
      (rebuilding.ofSum arithmetic leftExponentGiven rightExponentGiven summed)
  next =>
    cases made
    exact rebuilding.binary .multiply leftGiven rightGiven

theorem binaryRule {operator : BinaryOperator}
    (made : (binaryRule arithmetic operator left right).outcome = .ok result) : holds result := by
  cases operator with
  | multiply => exact rebuilding.productRule arithmetic leftGiven rightGiven made
  | add =>
      cases made
      exact rebuilding.sumRule arithmetic leftGiven rightGiven
  | subtract =>
      cases made
      exact rebuilding.differenceRule arithmetic leftGiven rightGiven
  | divide =>
      cases made
      exact rebuilding.quotientRule arithmetic leftGiven rightGiven
  | power =>
      cases made
      exact rebuilding.powerRule arithmetic leftGiven rightGiven
  | modulo | logBase =>
      cases made
      exact rebuilding.binary _ leftGiven rightGiven

/-- What is made of an operator between two operands has the property if they have it. -/
theorem ofBinary {operator : BinaryOperator}
    (made : (Simplification.binary arithmetic operator left right).outcome = .ok result) :
    holds result := by
  rcases binary_cases arithmetic made with ⟨value, -, rfl⟩ | ⟨-, ruled⟩
  · exact rebuilding.const value
  · exact rebuilding.binaryRule arithmetic leftGiven rightGiven ruled

omit leftGiven rightGiven in
/-- What is made of an operator on an operand has the property if the application has. -/
theorem ofUnary {operator : UnaryOperator} {operand : Expr α}
    (given : holds (.unary operator operand))
    (made : (Simplification.unary arithmetic operator operand).outcome = .ok result) :
    holds result := by
  rcases unary_cases arithmetic made with ⟨value, -, rfl⟩ | rfl
  · exact rebuilding.const value
  · exact rebuilding.unaryRule given

omit leftGiven rightGiven in
/-- What is made of a call has the property if the call has it. -/
theorem ofCall {name : String} {first : Expr α} {others : List (Expr α)}
    (given : holds (.call name first others))
    (made : (Simplification.call arithmetic name first others).outcome = .ok result) :
    holds result := by
  rcases call_cases arithmetic made with ⟨value, -, rfl⟩ | rfl
  · exact rebuilding.const value
  · exact given

end Rules

end Rebuilding

/-- A property that the rules keep and that survives other operands below the operators,
calls and unknown integrals that are left as they are. -/
structure Renewing (holds : Expr α → Prop) : Prop extends Rebuilding holds where
  unary {operator : UnaryOperator} {operand renewed : Expr α}
    (given : holds (.unary operator operand)) (renewedGiven : holds renewed) :
    holds (.unary operator renewed)
  call {name : String} {first renewed : Expr α} {others renewedOthers : List (Expr α)}
    (given : holds (.call name first others)) (renewedGiven : holds renewed)
    (othersGiven : ∀ other ∈ renewedOthers, holds other) :
    holds (.call name renewed renewedOthers)
  integral {integrand renewed : Expr α} {name : String}
    (given : holds (.integral integrand name)) (renewedGiven : holds renewed) :
    holds (.integral renewed name)

namespace Renewing

variable {holds : Expr α → Prop} {arithmetic : Arithmetic α}

/-- The simplified form of an expression with the property has it. -/
theorem ofSimplify (renewing : Renewing holds) {expression result : Expr α}
    (given : holds expression)
    (simplified : (expression.simplify arithmetic).outcome = .ok result) : holds result := by
  induction simplified using Expr.simplify_induction with
  | const value => exact given
  | var name => exact given
  | unary _ made ih =>
      have innerGiven := ih (renewing.child given _ List.mem_cons_self)
      exact renewing.ofUnary arithmetic (renewing.unary given innerGiven) made
  | binary _ _ made ihLeft ihRight =>
      exact renewing.ofBinary arithmetic (ihLeft (renewing.below_left given))
        (ihRight (renewing.below_right given)) made
  | call _ _ made ihFirst ihOthers =>
      have childGiven := renewing.child given
      have firstGiven := ihFirst (childGiven _ List.mem_cons_self)
      refine renewing.ofCall arithmetic (renewing.call given firstGiven ?_) made
      intro renewed member
      obtain ⟨other, found, -, ih⟩ := exists_of_mem_right ihOthers member
      exact ih (childGiven other (List.mem_cons_of_mem _ found))
  | integral _ ih =>
      exact renewing.integral given (ih (renewing.child given _ List.mem_cons_self))

end Renewing

end ExprCalculus
