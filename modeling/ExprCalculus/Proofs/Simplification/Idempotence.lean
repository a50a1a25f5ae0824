import ExprCalculus.Proofs.Doubles.Tolerance

/-!
# Simplification gives stable expressions

Each rule gives a stable expression when its operands are stable, so one pass from
the leaves to the root gives a stable expression, and a second pass changes
nothing.
-/

namespace ExprCalculus

namespace Arithmetic

variable {α : Type} (arithmetic : Arithmetic α)

theorem isConst_of_kind {expression : Expr α} (notConstant : expression.kind ≠ .constant)
    (value : α) : arithmetic.isConst value expression = false := by
  cases expression with
  | const other => exact absurd rfl notConstant
  | _ => rfl

theorem sameExpr_of_kind {first second : Expr α} (different : first.kind ≠ second.kind) :
    arithmetic.sameExpr first second = false :=
  Bool.eq_false_iff.mpr fun same => different (Expr.kind_eq_of_sameBy same)

theorem sameExpr_of_operator {first second : BinaryOperator} (different : first ≠ second)
    (left right otherLeft otherRight : Expr α) :
    arithmetic.sameExpr (.binary first left right) (.binary second otherLeft otherRight) =
      false := by
  simp [sameExpr, Expr.sameBy, different]

end Arithmetic

namespace Term

variable {α : Type} {arithmetic : Arithmetic α}

section Written

variable {coefficient : α} {base? : Option (Expr α)}

/-- How a term is written. -/
theorem toExpr_cases (arithmetic : Arithmetic α) (coefficient : α) (base : Expr α) :
    toExpr arithmetic coefficient (some base) = base ∨
      arithmetic.near coefficient (arithmetic.ofInt (-1)) = true ∧
        toExpr arithmetic coefficient (some base) = -base ∨
      arithmetic.near coefficient arithmetic.one = false ∧
        toExpr arithmetic coefficient (some base) = .const coefficient * base := by
  rw [toExpr]
  split
  next => exact .inl rfl
  next notOne =>
    split
    next minus => exact .inr (.inl ⟨minus, rfl⟩)
    next => exact .inr (.inr ⟨Bool.eq_false_iff.mpr notOne, rfl⟩)

theorem kind_toExpr {base : Expr α} (atomic : isAtomic base = true) :
    (toExpr arithmetic coefficient (some base)).kind ≠ .constant := by
  rcases toExpr_cases arithmetic coefficient base with same | ⟨-, same⟩ | ⟨-, same⟩ <;> rw [same]
  · exact kind_of_isAtomic atomic
  · exact fun constant => by cases constant
  · exact fun constant => by cases constant

theorem isConst_toExpr (atomic : ∀ base ∈ base?, isAtomic base = true)
    (notZero : arithmetic.near coefficient arithmetic.zero = false) :
    arithmetic.isConst arithmetic.zero (toExpr arithmetic coefficient base?) = false := by
  cases base? with
  | none => exact notZero
  | some base => exact arithmetic.isConst_of_kind (kind_toExpr (atomic base rfl)) _

theorem stable_toExpr (atomic : ∀ base ∈ base?, isAtomic base = true)
    (stable : ∀ base ∈ base?, Simplification.Stable arithmetic base)
    (notZero : arithmetic.near coefficient arithmetic.zero = false) :
    Simplification.Stable arithmetic (toExpr arithmetic coefficient base?) := by
  cases base? with
  | none => trivial
  | some base =>
      have baseStable := stable base rfl
      have baseAtomic : isAtomic base = true := atomic base rfl
      have notConstant := kind_of_isAtomic baseAtomic
      rcases toExpr_cases arithmetic coefficient base with same | ⟨-, same⟩ | ⟨notOne, same⟩ <;>
        rw [same]
      · exact baseStable
      · refine ⟨baseStable, ?_⟩
        rw [Simplification.unary_outcome,
          Simplification.foldOver_of_not_constant arithmetic List.mem_cons_self notConstant]
        unfold Simplification.unaryRule
        split
        next => cases baseAtomic
        next => rfl
      · refine ⟨trivial, baseStable, ?_⟩
        have member : base ∈ [.const coefficient, base] := by simp
        rw [Simplification.binary_of_unfolded arithmetic
          (Simplification.foldOver_of_not_constant arithmetic member notConstant _)]
        have notConst := arithmetic.isConst_of_kind notConstant
        have leftNotZero :
            arithmetic.isConst arithmetic.zero (.const coefficient) = false := notZero
        have leftNotOne :
            arithmetic.isConst arithmetic.one (.const coefficient) = false := notOne
        simp [Simplification.binaryRule, Simplification.productRule, notConst, leftNotZero,
          leftNotOne, Simplification.asPower, Expr.kind]
        rfl

theorem sameExpr_neg {expression : Expr α} (atomic : isAtomic expression = true)
    (operand : Expr α) : arithmetic.sameExpr (-operand) expression = false := by
  rw [Bool.eq_false_iff]
  intro same
  cases expression with
  | unary operator inner =>
      change (_ && _) = true at same
      rw [Bool.and_eq_true, decide_eq_true_eq] at same
      obtain ⟨rfl, -⟩ := same
      cases atomic
  | _ => cases Expr.kind_eq_of_sameBy same

theorem sameExpr_multiple_left {expression : Expr α} (atomic : isAtomic expression = true)
    (value : α) (factor : Expr α) :
    arithmetic.sameExpr (.const value * factor) expression = false := by
  rw [Bool.eq_false_iff]
  intro same
  cases expression with
  | binary operator left right =>
      change (_ && _ && _) = true at same
      rw [Bool.and_eq_true, Bool.and_eq_true, decide_eq_true_eq] at same
      obtain ⟨⟨rfl, sameLeft⟩, -⟩ := same
      obtain ⟨other, rfl⟩ := Expr.exists_const_of_kind (Expr.kind_eq_of_sameBy sameLeft).symm
      cases atomic
  | _ => cases Expr.kind_eq_of_sameBy same

theorem sameExpr_multiple_right {expression : Expr α} (atomic : isAtomic expression = true)
    (value : α) (factor : Expr α) :
    arithmetic.sameExpr expression (.const value * factor) = false := by
  rw [Bool.eq_false_iff]
  intro same
  cases expression with
  | binary operator left right =>
      change (_ && _ && _) = true at same
      rw [Bool.and_eq_true, Bool.and_eq_true, decide_eq_true_eq] at same
      obtain ⟨⟨rfl, sameLeft⟩, -⟩ := same
      obtain ⟨other, rfl⟩ := Expr.exists_const_of_kind (Expr.kind_eq_of_sameBy sameLeft)
      cases atomic
  | _ => cases Expr.kind_eq_of_sameBy same

theorem sameExpr_sum {operator : BinaryOperator} {expression : Expr α}
    (isSumOperator : operator = .add ∨ operator = .subtract)
    (atomic : isAtomic expression = true) (left right : Expr α) :
    arithmetic.sameExpr (.binary operator left right) expression = false := by
  rw [Bool.eq_false_iff]
  intro same
  cases expression with
  | binary other otherLeft otherRight =>
      change (_ && _ && _) = true at same
      rw [Bool.and_eq_true, Bool.and_eq_true, decide_eq_true_eq] at same
      obtain ⟨⟨rfl, -⟩, -⟩ := same
      rcases isSumOperator with rfl | rfl <;> cases atomic
  | _ => cases Expr.kind_eq_of_sameBy same

/-- Terms with different bases are written differently, if the later one has no
sign. -/
theorem sameExpr_toExpr {first : α} {firstBase? : Option (Expr α)}
    (firstAtomic : ∀ base ∈ firstBase?, isAtomic base = true)
    (atomic : ∀ base ∈ base?, isAtomic base = true)
    (different : sameBase arithmetic firstBase? base? = false)
    (unsigned : arithmetic.near coefficient (arithmetic.ofInt (-1)) = false) :
    arithmetic.sameExpr (toExpr arithmetic first firstBase?)
      (toExpr arithmetic coefficient base?) = false := by
  match firstBase?, base? with
  | none, none => cases different
  | none, some base =>
      exact arithmetic.sameExpr_of_kind (kind_toExpr (atomic base rfl)).symm
  | some firstBase, none =>
      exact arithmetic.sameExpr_of_kind (kind_toExpr (firstAtomic firstBase rfl))
  | some firstBase, some base =>
      have baseAtomic : isAtomic base = true := atomic base rfl
      have firstBaseAtomic : isAtomic firstBase = true := firstAtomic firstBase rfl
      have basesDiffer : Expr.sameBy arithmetic.same firstBase base = false := different
      rcases toExpr_cases arithmetic coefficient base with written | ⟨minus, -⟩ | ⟨-, written⟩
      · rw [written]
        rcases toExpr_cases arithmetic first firstBase with same | ⟨-, same⟩ | ⟨-, same⟩ <;>
          rw [same]
        · exact basesDiffer
        · exact sameExpr_neg baseAtomic firstBase
        · exact sameExpr_multiple_left baseAtomic first firstBase
      · rw [unsigned] at minus
        cases minus
      · rw [written]
        rcases toExpr_cases arithmetic first firstBase with same | ⟨-, same⟩ | ⟨-, same⟩ <;>
          rw [same]
        · exact sameExpr_multiple_right firstBaseAtomic coefficient base
        · exact arithmetic.sameExpr_of_kind fun kinds => by cases kinds
        · change (_ && _ && Expr.sameBy arithmetic.same firstBase base) = false
          rw [basesDiffer, Bool.and_false]

end Written

section Joining

variable {initial : List (Term α)} {last : Term α}

/-- A rebuilt sum is one written term, a sum or a difference. -/
theorem join_cases (arithmetic : Arithmetic α) {terms : List (Term α)} (nonempty : terms ≠ []) :
    (∃ first, terms = [first] ∧
        join arithmetic terms = toExpr arithmetic first.coefficient first.base?) ∨
      ∃ left right, join arithmetic terms = left + right ∨
        join arithmetic terms = left - right := by
  induction terms using List.reverseRecOn with
  | nil => exact absurd rfl nonempty
  | append_singleton initial last ih =>
      by_cases single : initial = []
      · subst single
        exact .inl ⟨last, rfl, rfl⟩
      · right
        rw [join_concat arithmetic single, appendTo]
        split
        · exact ⟨_, _, .inr rfl⟩
        · exact ⟨_, _, .inl rfl⟩

variable (collected : Collected arithmetic (initial ++ [last])) (nonempty : initial ≠ [])
include collected nonempty

theorem not_both_constant (coefficient : α) :
    (join arithmetic initial).kind ≠ .constant ∨
      (toExpr arithmetic coefficient last.base?).kind ≠ .constant := by
  rcases join_cases arithmetic nonempty with ⟨first, rfl, written⟩ | ⟨left, right, sum⟩
  · have different := collected.last_different first List.mem_cons_self
    have firstAtomic := collected.atomic first (by simp)
    have lastAtomic := collected.atomic last (by simp)
    rw [written]
    cases firstBase : first.base? with
    | some base => exact .inl (kind_toExpr (firstAtomic base firstBase))
    | none =>
        cases lastBase : last.base? with
        | some base => exact .inr (kind_toExpr (lastAtomic base lastBase))
        | none =>
            rw [firstBase, lastBase] at different
            cases different
  · left
    rcases sum with sum | sum <;> rw [sum] <;> exact fun constant => by cases constant

theorem isConst_join (tolerant : arithmetic.IsTolerant) :
    arithmetic.isConst arithmetic.zero (join arithmetic initial) = false := by
  rcases join_cases arithmetic nonempty with ⟨first, rfl, written⟩ | ⟨left, right, sum⟩
  · rw [written]
    exact isConst_toExpr (collected.atomic first (by simp))
      (tolerant.not_near_zero _ (collected.nonzero first (by simp)))
  · rcases sum with sum | sum <;> rw [sum] <;> rfl

theorem sameExpr_join {coefficient : α}
    (unsigned : arithmetic.near coefficient (arithmetic.ofInt (-1)) = false) :
    arithmetic.sameExpr (join arithmetic initial)
      (toExpr arithmetic coefficient last.base?) = false := by
  have lastAtomic := collected.atomic last (by simp)
  rcases join_cases arithmetic nonempty with ⟨first, rfl, written⟩ | ⟨left, right, sum⟩
  · rw [written]
    exact sameExpr_toExpr (collected.atomic first (by simp)) lastAtomic
      (collected.last_different first List.mem_cons_self) unsigned
  · have notTerm : ∀ operator, operator = .add ∨ operator = .subtract →
        arithmetic.sameExpr (.binary operator left right)
          (toExpr arithmetic coefficient last.base?) = false := by
      intro operator isSumOperator
      cases base? : last.base? with
      | none => exact arithmetic.sameExpr_of_kind fun kinds => by cases kinds
      | some base =>
          rcases toExpr_cases arithmetic coefficient base with same | ⟨minus, -⟩ | ⟨-, same⟩
          · rw [same]
            exact sameExpr_sum isSumOperator (lastAtomic base base?) left right
          · rw [unsigned] at minus
            cases minus
          · rw [same]
            rcases isSumOperator with rfl | rfl <;>
              exact arithmetic.sameExpr_of_operator (by decide) _ _ _ _
    rcases sum with sum | sum <;> rw [sum]
    · exact notTerm .add (.inl rfl)
    · exact notTerm .subtract (.inr rfl)

/-- Adding one more collected term to a stable rebuilt sum gives a stable sum. -/
theorem stable_appendTo (tolerant : arithmetic.IsTolerant)
    (stable : Simplification.Stable arithmetic (join arithmetic initial)) :
    Simplification.Stable arithmetic (appendTo arithmetic (join arithmetic initial) last) := by
  have lastMember : last ∈ initial ++ [last] := by simp
  have atomic := collected.atomic last lastMember
  have lastNonzero := collected.nonzero last lastMember
  have sumNotZero := isConst_join collected nonempty tolerant
  have rebuilt := collect_join tolerant (by simp) collected
  rw [join_concat arithmetic nonempty] at rebuilt
  have unfolded (coefficient : α) (operator : BinaryOperator) :
      (Simplification.binary arithmetic operator (join arithmetic initial)
        (toExpr arithmetic coefficient last.base?)).outcome =
      (Simplification.binaryRule arithmetic operator (join arithmetic initial)
        (toExpr arithmetic coefficient last.base?)).outcome := by
    apply Simplification.binary_of_unfolded
    rcases not_both_constant collected nonempty coefficient with notConstant | notConstant
    · exact Simplification.foldOver_of_not_constant arithmetic (by simp) notConstant _
    · exact Simplification.foldOver_of_not_constant arithmetic (by simp) notConstant _
  unfold appendTo at rebuilt ⊢
  split
  next negative =>
    rw [if_pos negative] at rebuilt
    have termNotZero := tolerant.neg_not_near_zero _ lastNonzero
    have different := sameExpr_join collected nonempty
      (tolerant.neg_not_near_neg_one _ negative)
    refine ⟨stable, stable_toExpr atomic (collected.stable last lastMember) termNotZero, ?_⟩
    rw [unfolded]
    change (pure (Simplification.differenceRule arithmetic _ _) :
      Simplification.Simplifying α (Expr α)).outcome = _
    rw [Simplification.differenceRule, isConst_toExpr atomic termNotZero, different]
    exact congrArg Except.ok rebuilt
  next notNegative =>
    rw [if_neg notNegative] at rebuilt
    have termNotZero := tolerant.not_near_zero _ lastNonzero
    refine ⟨stable, stable_toExpr atomic (collected.stable last lastMember) termNotZero, ?_⟩
    rw [unfolded]
    change (pure (Simplification.sumRule arithmetic _ _) :
      Simplification.Simplifying α (Expr α)).outcome = _
    rw [Simplification.sumRule, sumNotZero, isConst_toExpr atomic termNotZero]
    exact congrArg Except.ok rebuilt

omit collected nonempty in
/-- A rebuilt sum is stable, since each of its prefixes is. -/
theorem stable_join (tolerant : arithmetic.IsTolerant) {terms : List (Term α)}
    (collected : Collected arithmetic terms) :
    Simplification.Stable arithmetic (join arithmetic terms) := by
  induction terms using List.reverseRecOn with
  | nil => trivial
  | append_singleton initial last ih =>
      by_cases single : initial = []
      · subst single
        exact stable_toExpr (collected.atomic last (by simp)) (collected.stable last (by simp))
          (tolerant.not_near_zero _ (collected.nonzero last (by simp)))
      · rw [join_concat arithmetic single]
        exact stable_appendTo collected single tolerant (ih collected.withoutLast)

end Joining

end Term

namespace Simplification

variable {α : Type} {arithmetic : Arithmetic α} {left right result : Expr α}

/-- Base and exponent of a stable expression as a power are stable. -/
theorem stable_asPower {expression : Expr α} (stable : Stable arithmetic expression) :
    Stable arithmetic (asPower arithmetic expression).1 ∧
      Stable arithmetic (asPower arithmetic expression).2 := by
  unfold asPower
  split
  · exact ⟨stable.1, stable.2.1⟩
  · exact ⟨stable, trivial⟩

section Rules

variable (leftStable : Stable arithmetic left) (rightStable : Stable arithmetic right)
include leftStable rightStable

theorem stable_sumRule (tolerant : arithmetic.IsTolerant) :
    Stable arithmetic (sumRule arithmetic left right) := by
  unfold sumRule
  split
  · exact rightStable
  split
  · exact leftStable
  refine Term.stable_join tolerant (Term.collected_split arithmetic ?_)
  intro term member
  rw [Term.flatten_add] at member
  rcases List.mem_append.mp member with inLeft | inRight
  · exact leftStable.base_flatten arithmetic inLeft
  · exact rightStable.base_flatten arithmetic inRight

theorem stable_differenceRule (tolerant : arithmetic.IsTolerant) :
    Stable arithmetic (differenceRule arithmetic left right) := by
  unfold differenceRule
  split
  · exact leftStable
  split
  · trivial
  refine Term.stable_join tolerant (Term.collected_split arithmetic ?_)
  intro term member
  rw [Term.flatten_sub] at member
  rcases List.mem_append.mp member with inLeft | inRight
  · exact leftStable.base_flatten arithmetic inLeft
  · exact rightStable.base_flatten arithmetic inRight

/-- A node with stable operands on which nothing is folded is stable if its rule
leaves it as it is. -/
theorem stable_binary {operator : BinaryOperator}
    (unfolded : (foldOver arithmetic [left, right] (.binary operator left right)).outcome =
      .ok none)
    (fixed : (binaryRule arithmetic operator left right).outcome =
      .ok (.binary operator left right)) :
    Stable arithmetic (.binary operator left right) :=
  ⟨leftStable, rightStable, (binary_of_unfolded arithmetic unfolded).trans fixed⟩

theorem stable_quotientRule
    (unfolded : (foldOver arithmetic [left, right] (left / right)).outcome = .ok none) :
    Stable arithmetic (quotientRule arithmetic left right) := by
  by_cases same : quotientRule arithmetic left right = left / right
  · rw [same]
    exact stable_binary leftStable rightStable unfolded (congrArg Except.ok same)
  · unfold quotientRule at same ⊢
    split
    · trivial
    split
    · exact leftStable
    split
    · trivial
    · simp_all

theorem stable_powerRule
    (unfolded : (foldOver arithmetic [left, right] (left ^ right)).outcome = .ok none) :
    Stable arithmetic (powerRule arithmetic left right) := by
  by_cases same : powerRule arithmetic left right = left ^ right
  · rw [same]
    exact stable_binary leftStable rightStable unfolded (congrArg Except.ok same)
  · unfold powerRule at same ⊢
    split
    · trivial
    split
    · exact leftStable
    split
    · trivial
    split
    · trivial
    · simp_all

theorem stable_add (tolerant : arithmetic.IsTolerant)
    (made : (binary arithmetic .add left right).outcome = .ok result) :
    Stable arithmetic result := by
  rcases binary_cases arithmetic made with ⟨value, -, rfl⟩ | ⟨-, ruled⟩
  · trivial
  · cases ruled
    exact stable_sumRule leftStable rightStable tolerant

theorem stable_productRule (tolerant : arithmetic.IsTolerant)
    (unfolded : (foldOver arithmetic [left, right] (left * right)).outcome = .ok none)
    (made : (productRule arithmetic left right).outcome = .ok result) :
    Stable arithmetic result := by
  by_cases same : result = left * right
  · rw [same] at made ⊢
    exact stable_binary leftStable rightStable unfolded made
  unfold productRule at made
  split at made
  · cases made
    trivial
  split at made
  · cases made
    exact rightStable
  split at made
  · cases made
    exact leftStable
  dsimp only at made
  split at made
  next merges =>
    obtain ⟨leftBaseStable, leftExponentStable⟩ := stable_asPower leftStable
    obtain ⟨-, rightExponentStable⟩ := stable_asPower rightStable
    have notConstant : (asPower arithmetic left).1.kind ≠ .constant := by
      rw [Bool.and_eq_true, decide_eq_true_eq] at merges
      exact merges.1
    rw [Traced.outcome_bind, sum_outcome] at made
    cases exponentOutcome : (binary arithmetic .add (asPower arithmetic left).2
        (asPower arithmetic right).2).outcome with
    | error fault =>
        rw [exponentOutcome] at made
        cases made
    | ok exponent =>
        rw [exponentOutcome] at made
        cases made
        have exponentStable :=
          stable_add leftExponentStable rightExponentStable tolerant exponentOutcome
        refine stable_powerRule leftBaseStable exponentStable ?_
        exact foldOver_of_not_constant arithmetic List.mem_cons_self notConstant _
  next =>
    cases made
    exact absurd rfl same

/-- An operator between stable operands gives a stable expression. -/
theorem stable_of_binary (tolerant : arithmetic.IsTolerant) (operator : BinaryOperator)
    (made : (binary arithmetic operator left right).outcome = .ok result) :
    Stable arithmetic result := by
  rcases binary_cases arithmetic made with ⟨value, -, rfl⟩ | ⟨unfolded, ruled⟩
  · trivial
  cases operator with
  | add =>
      cases ruled
      exact stable_sumRule leftStable rightStable tolerant
  | subtract =>
      cases ruled
      exact stable_differenceRule leftStable rightStable tolerant
  | multiply => exact stable_productRule leftStable rightStable tolerant unfolded ruled
  | divide =>
      cases ruled
      exact stable_quotientRule leftStable rightStable unfolded
  | power =>
      cases ruled
      exact stable_powerRule leftStable rightStable unfolded
  | modulo =>
      cases ruled
      exact stable_binary leftStable rightStable unfolded rfl
  | logBase =>
      cases ruled
      exact stable_binary leftStable rightStable unfolded rfl

end Rules

/-- An operator on a stable operand gives a stable expression. -/
theorem stable_of_unary {operator : UnaryOperator} {operand : Expr α}
    (operandStable : Stable arithmetic operand)
    (made : (unary arithmetic operator operand).outcome = .ok result) :
    Stable arithmetic result := by
  by_cases same : result = .unary operator operand
  · rw [same] at made ⊢
    exact ⟨operandStable, made⟩
  rcases unary_cases arithmetic made with ⟨value, -, rfl⟩ | rfl
  · trivial
  unfold unaryRule at same ⊢
  split
  · exact operandStable.1
  · simp_all

/-- A call with stable arguments gives a stable expression. -/
theorem stable_of_call {name : String} {first : Expr α} {others : List (Expr α)}
    (firstStable : Stable arithmetic first) (othersStable : StableAll arithmetic others)
    (made : (call arithmetic name first others).outcome = .ok result) :
    Stable arithmetic result := by
  by_cases same : result = .call name first others
  · rw [same] at made ⊢
    exact ⟨firstStable, othersStable, made⟩
  rcases call_cases arithmetic made with ⟨value, -, rfl⟩ | rfl
  · trivial
  · exact absurd rfl same

/-- The simplified form of an expression is stable. -/
theorem stable_of_simplify (tolerant : arithmetic.IsTolerant) {expression result : Expr α}
    (simplified : (expression.simplify arithmetic).outcome = .ok result) :
    Stable arithmetic result := by
  induction simplified using Expr.simplify_induction with
  | const value => trivial
  | var name => trivial
  | unary _ made operandStable => exact stable_of_unary operandStable made
  | @binary operator _ _ _ _ _ _ _ made leftStable rightStable =>
      exact stable_of_binary leftStable rightStable tolerant operator made
  | call _ _ made firstStable othersStable =>
      refine stable_of_call firstStable ((stableAll_iff arithmetic).mpr ?_) made
      intro renewed member
      obtain ⟨other, -, -, stable⟩ := exists_of_mem_right othersStable member
      exact stable
  | integral _ integrandStable => exact integrandStable

/-- The fixed points of simplification are the stable expressions. -/
theorem stable_iff (tolerant : arithmetic.IsTolerant) {expression : Expr α} :
    Stable arithmetic expression ↔
      (expression.simplify arithmetic).outcome = .ok expression :=
  ⟨Stable.simplify arithmetic, stable_of_simplify tolerant⟩

end Simplification

open Simplification

/-- With a tolerance above zero and at most one, a simplified expression is its own
simplified form, and the rules make fixed points of fixed points. -/
theorem simplify_idempotent (settings : Settings) (positive : 0.0 < settings.epsilon)
    (atMostOne : settings.epsilon ≤ 1.0) :
    let arithmetic := Doubles.arithmetic settings
    (∀ expression result, (Expr.simplify arithmetic expression).outcome = .ok result →
      (Expr.simplify arithmetic result).outcome = .ok result) ∧
    (∀ operator left right result,
      (Expr.simplify arithmetic left).outcome = .ok left →
      (Expr.simplify arithmetic right).outcome = .ok right →
      (binary arithmetic operator left right).outcome = .ok result →
      (Expr.simplify arithmetic result).outcome = .ok result) ∧
    ∀ operator operand result,
      (Expr.simplify arithmetic operand).outcome = .ok operand →
      (unary arithmetic operator operand).outcome = .ok result →
      (Expr.simplify arithmetic result).outcome = .ok result := by
  intro arithmetic
  have tolerant : arithmetic.IsTolerant := Binary64.isTolerant_doubles positive atMostOne
  refine ⟨?_, ?_, ?_⟩
  · intro expression result simplified
    exact (stable_of_simplify tolerant simplified).simplify
  · intro operator left right result leftFixed rightFixed made
    have leftStable := (stable_iff tolerant).mpr leftFixed
    have rightStable := (stable_iff tolerant).mpr rightFixed
    exact (stable_of_binary leftStable rightStable tolerant operator made).simplify
  · intro operator operand result operandFixed made
    have operandStable := (stable_iff tolerant).mpr operandFixed
    exact (stable_of_unary operandStable made).simplify

/-- The sum `(x + y) - (y - 3 * x)` becomes `4 * x`, the rule for sums makes
`2 * x` of twice the same variable, and both are fixed points. -/
theorem simplify_idempotent_linear :
    let arithmetic := Doubles.arithmetic Settings.standard
    let x : Expr Float := .var "x"
    let y : Expr Float := .var "y"
    (∃ result, (Expr.simplify arithmetic (x + y - (y - .const 3.0 * x))).outcome = .ok result ∧
      result.render Settings.standard = "4 * x" ∧
      (Expr.simplify arithmetic result).outcome = .ok result) ∧
    (∃ result, (binary arithmetic .add x x).outcome = .ok result ∧
      result.render Settings.standard = "2 * x" ∧
      (Expr.simplify arithmetic result).outcome = .ok result) ∧
    (Expr.simplify arithmetic (-x)).outcome = .ok (-x) := by
  intro arithmetic x y
  have positive : 0.0 < Settings.standard.epsilon := by decide
  have atMostOne : Settings.standard.epsilon ≤ 1.0 := by decide
  obtain ⟨whole, sums, signs⟩ := simplify_idempotent Settings.standard positive atMostOne
  refine ⟨?_, ?_, ?_⟩
  · have written : (Expr.simplify arithmetic (x + y - (y - .const 3.0 * x))).outcome.toOption.map
        (Expr.render Settings.standard) = some "4 * x" := by decide +kernel
    cases simplified : (Expr.simplify arithmetic (x + y - (y - .const 3.0 * x))).outcome with
    | error fault =>
        rw [simplified] at written
        cases written
    | ok result =>
        rw [simplified] at written
        exact ⟨result, rfl, Option.some.inj written, whole _ result simplified⟩
  · have written : (binary arithmetic .add x x).outcome.toOption.map
        (Expr.render Settings.standard) = some "2 * x" := by decide +kernel
    cases simplified : (binary arithmetic .add x x).outcome with
    | error fault =>
        rw [simplified] at written
        cases written
    | ok result =>
        rw [simplified] at written
        exact ⟨result, rfl, Option.some.inj written, sums .add x x result rfl rfl simplified⟩
  · exact signs .negate x (-x) rfl rfl

end ExprCalculus
