import ExprCalculus.Proofs.Simplification.Stability
import ExprCalculus.Proofs.Simplification.TermValues
import Mathlib.Data.Rat.Cast.Order

/-!
# Simplification keeps the value

In exact arithmetic every rule keeps the value of an expression wherever the
expression is defined.  The rules for powers need whole exponents: the exponents
of an expression are assumed to be whole constants or negations of such, and the
exponents of its simplified form are whole constants.
-/

namespace ExprCalculus

namespace Expr

variable {α : Type}

mutual

/-- Every exponent in the expression is one of the allowed ones. -/
def ExponentsAre (allowed : Expr α → Prop) : Expr α → Prop
  | const _ => True
  | var _ => True
  | unary _ operand => operand.ExponentsAre allowed
  | binary operator left right =>
      left.ExponentsAre allowed ∧ right.ExponentsAre allowed ∧
        (operator = .power → allowed right)
  | call _ first others => first.ExponentsAre allowed ∧ ExponentsAreAll allowed others
  | integral integrand _ => integrand.ExponentsAre allowed

def ExponentsAreAll (allowed : Expr α → Prop) : List (Expr α) → Prop
  | [] => True
  | expression :: rest => expression.ExponentsAre allowed ∧ ExponentsAreAll allowed rest

end

variable {allowed : Expr α → Prop}

/-- An operator other than a power has no exponent of its own. -/
theorem ExponentsAre.binary {operator : BinaryOperator} {left right : Expr α}
    (proper : operator ≠ .power) (leftExponents : left.ExponentsAre allowed)
    (rightExponents : right.ExponentsAre allowed) :
    (Expr.binary operator left right).ExponentsAre allowed :=
  ⟨leftExponents, rightExponents, fun isPower => absurd isPower proper⟩

theorem ExponentsAreAll.of_mem {expressions : List (Expr α)} {expression : Expr α}
    (all : ExponentsAreAll allowed expressions) (member : expression ∈ expressions) :
    expression.ExponentsAre allowed := by
  induction expressions with
  | nil => cases member
  | cons first rest ih =>
      rcases List.mem_cons.mp member with rfl | inRest
      · exact all.1
      · exact ih all.2 inRest

mutual

theorem ExponentsAre.mono {others : Expr α → Prop}
    (weaker : ∀ exponent, allowed exponent → others exponent) {expression : Expr α}
    (exponents : expression.ExponentsAre allowed) : expression.ExponentsAre others := by
  match expression with
  | .const _ => trivial
  | .var _ => trivial
  | .unary _ operand => exact @ExponentsAre.mono others weaker operand exponents
  | .binary _ _ _ =>
      exact ⟨exponents.1.mono weaker, exponents.2.1.mono weaker,
        fun isPower => weaker _ (exponents.2.2 isPower)⟩
  | .call _ _ _ => exact ⟨exponents.1.mono weaker, exponents.2.mono weaker⟩
  | .integral integrand _ => exact @ExponentsAre.mono others weaker integrand exponents

theorem ExponentsAreAll.mono {others : Expr α → Prop}
    (weaker : ∀ exponent, allowed exponent → others exponent) {expressions : List (Expr α)}
    (exponents : ExponentsAreAll allowed expressions) : ExponentsAreAll others expressions := by
  match expressions with
  | [] => trivial
  | _ :: _ => exact ⟨exponents.1.mono weaker, exponents.2.mono weaker⟩

end

theorem ExponentsAre.of_mem_children {expression : Expr α}
    (exponents : expression.ExponentsAre allowed) :
    ∀ child ∈ expression.children, child.ExponentsAre allowed := by
  cases expression with
  | const value => exact List.forall_mem_nil _
  | var name => exact List.forall_mem_nil _
  | unary operator operand => exact List.forall_mem_singleton.mpr exponents
  | binary operator left right =>
      exact List.forall_mem_cons.mpr ⟨exponents.1, List.forall_mem_singleton.mpr exponents.2.1⟩
  | call name first others =>
      exact List.forall_mem_cons.mpr ⟨exponents.1, fun child member =>
        ExponentsAreAll.of_mem exponents.2 member⟩
  | integral integrand name => exact List.forall_mem_singleton.mpr exponents

end Expr

namespace Term

variable {α : Type} {arithmetic : Arithmetic α} {allowed : Expr α → Prop}

theorem exponentsAre_toExpr {coefficient : α} {base? : Option (Expr α)}
    (exponents : ∀ base ∈ base?, base.ExponentsAre allowed) :
    (toExpr arithmetic coefficient base?).ExponentsAre allowed := by
  cases base? with
  | none => trivial
  | some base =>
      have baseExponents := exponents base rfl
      rw [toExpr]
      split
      · exact baseExponents
      split
      · exact baseExponents
      · exact .binary (by decide) trivial baseExponents

theorem exponentsAre_appendTo {sum : Expr α} {term : Term α}
    (sumExponents : sum.ExponentsAre allowed)
    (exponents : ∀ base ∈ term.base?, base.ExponentsAre allowed) :
    (appendTo arithmetic sum term).ExponentsAre allowed := by
  rw [appendTo]
  split
  · exact .binary (by decide) sumExponents (exponentsAre_toExpr exponents)
  · exact .binary (by decide) sumExponents (exponentsAre_toExpr exponents)

theorem exponentsAre_join {terms : List (Term α)}
    (exponents : ∀ term ∈ terms, ∀ base ∈ term.base?, base.ExponentsAre allowed) :
    (join arithmetic terms).ExponentsAre allowed := by
  have appended (sum : Expr α) (sumExponents : sum.ExponentsAre allowed) (rest : List (Term α))
      (restExponents : ∀ term ∈ rest, ∀ base ∈ term.base?, base.ExponentsAre allowed) :
      (rest.foldl (appendTo arithmetic) sum).ExponentsAre allowed := by
    induction rest generalizing sum with
    | nil => exact sumExponents
    | cons term rest ih =>
        rw [List.forall_mem_cons] at restExponents
        exact ih _ (exponentsAre_appendTo sumExponents restExponents.1) restExponents.2
  cases terms with
  | nil => trivial
  | cons first rest =>
      rw [List.forall_mem_cons] at exponents
      exact appended _ (exponentsAre_toExpr exponents.1) rest exponents.2

/-- Collecting terms brings in no new exponents. -/
theorem exponentsAre_collect {expression : Expr α}
    (exponents : expression.ExponentsAre allowed) :
    (collect arithmetic expression).ExponentsAre allowed := by
  apply exponentsAre_join
  intro term member
  obtain ⟨other, found, same⟩ := base_of_mem_merge arithmetic member
  rw [same]
  exact base_flatten_of_children arithmetic _
    (fun _ parentExponents => parentExponents.of_mem_children) exponents found

end Term

namespace Exact

def IsWhole (expression : Expr (Option ℚ)) : Prop :=
  ∃ number : ℤ, expression = .const (some number)

/-- A whole constant or the negation of one. -/
def IsWholeLiteral (expression : Expr (Option ℚ)) : Prop :=
  ∃ number : ℤ, expression = .const (some number) ∨
    expression = .unary .negate (.const (some number))

/-- An expression has the given value, and its exponents are whole constants. -/
structure Represents (valuation : Valuation) (expression : Expr (Option ℚ)) (value : ℚ) :
    Prop where
  denotes : Denotes valuation expression value
  whole : expression.ExponentsAre IsWhole

section Powers

variable {otherwise : ℚ → ℚ → Option ℚ}

theorem power_intCast (base : ℚ) (exponent : ℤ) :
    power otherwise base exponent =
      if base = 0 ∧ exponent < 0 then none else some (base ^ exponent) := by
  rw [power, Rat.num_intCast, if_pos rfl]

theorem power_intCast_eq_some {base value : ℚ} {exponent : ℤ} :
    power otherwise base exponent = some value ↔
      ¬ (base = 0 ∧ exponent < 0) ∧ value = base ^ exponent := by
  rw [power_intCast]
  split
  next undefined => simp [undefined]
  next defined => simp [defined, eq_comm]

/-- Powers of the same base are multiplied by adding their exponents. -/
theorem power_add {base first second : ℚ} {exponent otherExponent : ℤ}
    (isFirst : power otherwise base exponent = some first)
    (isSecond : power otherwise base otherExponent = some second) :
    power otherwise base (exponent + otherExponent : ℤ) = some (first * second) := by
  rw [power_intCast_eq_some] at isFirst isSecond ⊢
  obtain ⟨firstDefined, rfl⟩ := isFirst
  obtain ⟨secondDefined, rfl⟩ := isSecond
  refine ⟨fun ⟨zero, negative⟩ => ?_, ?_⟩
  · have firstNonnegative : ¬ exponent < 0 := fun below => firstDefined ⟨zero, below⟩
    have secondNonnegative : ¬ otherExponent < 0 := fun below => secondDefined ⟨zero, below⟩
    omega
  · by_cases zero : base = 0
    · have firstNonnegative : ¬ exponent < 0 := fun below => firstDefined ⟨zero, below⟩
      have secondNonnegative : ¬ otherExponent < 0 := fun below => secondDefined ⟨zero, below⟩
      obtain ⟨firstNumber, rfl⟩ := Int.eq_ofNat_of_zero_le (not_lt.mp firstNonnegative)
      obtain ⟨secondNumber, rfl⟩ := Int.eq_ofNat_of_zero_le (not_lt.mp secondNonnegative)
      rw [← Int.natCast_add, zpow_natCast, zpow_natCast, zpow_natCast, pow_add]
    · rw [zpow_add₀ zero]

end Powers

section Rules

variable {valuation : Valuation} {left right expression : Expr (Option ℚ)}
  {leftValue rightValue value : ℚ}

theorem isConst_eq_true {interpretation : Interpretation} {number : ℚ} :
    interpretation.arithmetic.isConst (some number) expression = true ↔
      expression = .const (some number) := by
  cases expression with
  | const constant =>
      change (constant.isSome && decide (constant = some number)) = true ↔ _
      rw [Bool.and_eq_true, decide_eq_true_eq]
      constructor
      · rintro ⟨-, rfl⟩
        rfl
      · intro same
        cases same
        exact ⟨rfl, rfl⟩
  | _ =>
      constructor
      · intro isConst
        cases isConst
      · intro same
        cases same

theorem represents_const (number : ℚ) : Represents valuation (.const (some number)) number :=
  ⟨denotes_const.mpr rfl, trivial⟩

theorem Represents.eq_of_const {number : ℚ}
    (represents : Represents valuation (.const (some number)) value) : value = number :=
  (Option.some.inj (denotes_const.mp represents.denotes)).symm

theorem zero_eq (interpretation : Interpretation) :
    interpretation.arithmetic.zero = some 0 := by
  change some ((0 : ℤ) : ℚ) = some 0
  rw [Int.cast_zero]

theorem one_eq (interpretation : Interpretation) : interpretation.arithmetic.one = some 1 := by
  change some ((1 : ℤ) : ℚ) = some 1
  rw [Int.cast_one]

theorem Represents.collect (denotes : Denotes valuation expression value)
    (whole : expression.ExponentsAre IsWhole) :
    Represents valuation (Term.collect valuation.interpretation.arithmetic expression) value :=
  ⟨collect_denotes denotes, Term.exponentsAre_collect whole⟩

variable (leftRepresents : Represents valuation left leftValue)

include leftRepresents

theorem unaryRule_represents {operator : UnaryOperator}
    (applied : valuation.interpretation.unaryValue operator (some leftValue) = .ok (some value)) :
    Represents valuation (Simplification.unaryRule operator left) value := by
  unfold Simplification.unaryRule
  split
  next inner =>
    obtain ⟨innerValue, innerDenotes, rfl⟩ := denotes_neg.mp leftRepresents.denotes
    have isValue : value = innerValue := by
      rw [← Option.some.inj (Except.ok.inj applied), neg_neg]
    rw [isValue]
    exact ⟨innerDenotes, leftRepresents.whole⟩
  · exact ⟨denotes_unary.mpr ⟨leftValue, leftRepresents.denotes, applied⟩, leftRepresents.whole⟩

theorem powerRule_represents {exponent : ℤ}
    (isPower : power (valuation.interpretation.binary .power) leftValue exponent = some value) :
    Represents valuation
      (Simplification.powerRule valuation.interpretation.arithmetic left
        (.const (some (exponent : ℚ)))) value := by
  obtain ⟨defined, isValue⟩ := power_intCast_eq_some.mp isPower
  have exponent_of_isConst {number : ℤ}
      (isConst : valuation.interpretation.arithmetic.isConst (some (number : ℚ))
        (.const (some (exponent : ℚ))) = true) : exponent = number := by
    rw [isConst_eq_true] at isConst
    injection isConst with same
    exact Int.cast_injective (Option.some.inj same)
  rw [Simplification.powerRule]
  split
  next exponentZero =>
    rw [isValue, exponent_of_isConst exponentZero, zpow_zero, one_eq]
    exact represents_const 1
  next exponentNotZero =>
  split
  next exponentOne =>
    rw [isValue, exponent_of_isConst exponentOne, zpow_one]
    exact leftRepresents
  split
  next baseOne =>
    rw [one_eq, isConst_eq_true] at baseOne
    subst baseOne
    rw [isValue, leftRepresents.eq_of_const, one_zpow, one_eq]
    exact represents_const 1
  split
  next baseZero =>
    rw [zero_eq, isConst_eq_true] at baseZero
    subst baseZero
    have nonzero : exponent ≠ 0 := by
      rintro rfl
      exact exponentNotZero (isConst_eq_true.mpr rfl)
    rw [isValue, leftRepresents.eq_of_const, zero_zpow _ nonzero, zero_eq]
    exact represents_const 0
  · refine ⟨denotes_binary.mpr ⟨leftValue, exponent, leftRepresents.denotes,
      denotes_const.mpr rfl, isPower⟩, ?_⟩
    exact ⟨leftRepresents.whole, trivial, fun _ => ⟨exponent, rfl⟩⟩

/-- An expression is a power of its base to a whole exponent. -/
theorem asPower_represents :
    ∃ (baseValue : ℚ) (exponent : ℤ),
      Represents valuation
        (Simplification.asPower valuation.interpretation.arithmetic left).1 baseValue ∧
      (Simplification.asPower valuation.interpretation.arithmetic left).2 =
        .const (some (exponent : ℚ)) ∧
      power (valuation.interpretation.binary .power) baseValue exponent = some leftValue := by
  unfold Simplification.asPower
  split
  next base exponent =>
    obtain ⟨baseWhole, -, exponentWhole⟩ := leftRepresents.whole
    obtain ⟨number, rfl⟩ := exponentWhole rfl
    obtain ⟨baseValue, exponentValue, baseDenotes, exponentDenotes, isPower⟩ :=
      denotes_binary.mp leftRepresents.denotes
    have isNumber : (number : ℚ) = exponentValue :=
      Option.some.inj (denotes_const.mp exponentDenotes)
    subst isNumber
    exact ⟨baseValue, number, ⟨baseDenotes, baseWhole⟩, rfl, isPower⟩
  · refine ⟨leftValue, 1, leftRepresents, rfl, ?_⟩
    rw [power_intCast_eq_some, zpow_one]
    exact ⟨by omega, rfl⟩

variable (rightRepresents : Represents valuation right rightValue)

include rightRepresents

theorem sumRule_represents :
    Represents valuation (Simplification.sumRule valuation.interpretation.arithmetic left right)
      (leftValue + rightValue) := by
  rw [Simplification.sumRule, zero_eq]
  split
  next leftZero =>
    rw [isConst_eq_true] at leftZero
    subst leftZero
    rw [leftRepresents.eq_of_const, zero_add]
    exact rightRepresents
  split
  next rightZero =>
    rw [isConst_eq_true] at rightZero
    subst rightZero
    rw [rightRepresents.eq_of_const, add_zero]
    exact leftRepresents
  · exact .collect (leftRepresents.denotes.add rightRepresents.denotes)
      (.binary (by decide) leftRepresents.whole rightRepresents.whole)

theorem differenceRule_represents :
    Represents valuation
      (Simplification.differenceRule valuation.interpretation.arithmetic left right)
      (leftValue - rightValue) := by
  rw [Simplification.differenceRule, zero_eq]
  split
  next rightZero =>
    rw [isConst_eq_true] at rightZero
    subst rightZero
    rw [rightRepresents.eq_of_const, sub_zero]
    exact leftRepresents
  split
  next same =>
    have equal := eq_of_sameExpr same
    subst equal
    rw [leftRepresents.denotes.unique rightRepresents.denotes, sub_self]
    exact represents_const 0
  · exact .collect (leftRepresents.denotes.sub rightRepresents.denotes)
      (.binary (by decide) leftRepresents.whole rightRepresents.whole)

theorem quotientRule_represents (nonzero : rightValue ≠ 0) :
    Represents valuation
      (Simplification.quotientRule valuation.interpretation.arithmetic left right)
      (leftValue / rightValue) := by
  rw [Simplification.quotientRule, zero_eq, one_eq]
  split
  next leftZero =>
    rw [isConst_eq_true] at leftZero
    subst leftZero
    rw [leftRepresents.eq_of_const, zero_div]
    exact represents_const 0
  split
  next rightOne =>
    rw [isConst_eq_true] at rightOne
    subst rightOne
    rw [rightRepresents.eq_of_const, div_one]
    exact leftRepresents
  split
  next same =>
    have equal := eq_of_sameExpr same
    subst equal
    rw [leftRepresents.denotes.unique rightRepresents.denotes, div_self nonzero]
    exact represents_const 1
  · refine ⟨denotes_binary.mpr ⟨leftValue, rightValue, leftRepresents.denotes,
      rightRepresents.denotes, if_neg nonzero⟩, ?_⟩
    exact .binary (by decide) leftRepresents.whole rightRepresents.whole

/-- Powers of the same base merge into one power; other products stay as they are. -/
theorem productRule_represents :
    ∃ result,
      (Simplification.productRule valuation.interpretation.arithmetic left right).outcome =
        .ok result ∧
      Represents valuation result (leftValue * rightValue) := by
  unfold Simplification.productRule
  rw [zero_eq, one_eq]
  split
  next someZero =>
    rw [Bool.or_eq_true, isConst_eq_true, isConst_eq_true] at someZero
    refine ⟨_, rfl, ?_⟩
    rcases someZero with rfl | rfl
    · rw [leftRepresents.eq_of_const, zero_mul]
      exact represents_const 0
    · rw [rightRepresents.eq_of_const, mul_zero]
      exact represents_const 0
  split
  next leftOne =>
    rw [isConst_eq_true] at leftOne
    subst leftOne
    rw [leftRepresents.eq_of_const, one_mul]
    exact ⟨right, rfl, rightRepresents⟩
  split
  next rightOne =>
    rw [isConst_eq_true] at rightOne
    subst rightOne
    rw [rightRepresents.eq_of_const, mul_one]
    exact ⟨left, rfl, leftRepresents⟩
  · obtain ⟨baseValue, exponent, baseRepresents, isExponent, isLeft⟩ :=
      asPower_represents leftRepresents
    obtain ⟨otherValue, otherExponent, otherRepresents, isOther, isRight⟩ :=
      asPower_represents rightRepresents
    dsimp only
    split
    next merged =>
      rw [Bool.and_eq_true] at merged
      have equal := eq_of_sameExpr merged.2
      rw [← equal] at otherRepresents
      have sameValue := otherRepresents.denotes.unique baseRepresents.denotes
      subst sameValue
      rw [isExponent, isOther]
      have added : (Simplification.sum valuation.interpretation.arithmetic
          (.const (some (exponent : ℚ))) (.const (some (otherExponent : ℚ)))).outcome =
          .ok (.const (some ((exponent + otherExponent : ℤ) : ℚ))) := by
        rw [Int.cast_add]
        rfl
      rw [Traced.outcome_bind, added]
      exact ⟨_, rfl, powerRule_represents baseRepresents (power_add isLeft isRight)⟩
    next =>
      refine ⟨_, rfl, leftRepresents.denotes.mul rightRepresents.denotes, ?_⟩
      exact .binary (by decide) leftRepresents.whole rightRepresents.whole

end Rules

end Exact

end ExprCalculus
