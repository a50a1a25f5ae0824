import ExprCalculus.Proofs.Calculus.DualNumbers
import ExprCalculus.Proofs.Calculus.Rules
import ExprCalculus.Proofs.Simplification.Preservation

/-!
# Derivatives of rational expressions

A rational expression is built from constants and variables by the arithmetic
operations, where an exponent is a whole constant other than zero.  Wherever it is
defined, its derivative is defined, and the value of the derivative is the slope of
the expression over dual numbers.
-/

namespace ExprCalculus

namespace Exact

open DualNumber TrivSqZeroExt

/-- A whole constant other than zero, or the negation of one. -/
def IsExponent (expression : Expr (Option ℚ)) : Prop :=
  ∃ number : ℤ, number ≠ 0 ∧ (expression = .const (some number) ∨
    expression = .unary .negate (.const (some number)))

/-- An expression is built by the arithmetic operations only. -/
def IsRational : Expr (Option ℚ) → Prop
  | .const _ => True
  | .var _ => True
  | .unary operator operand => operator = .negate ∧ IsRational operand
  | .binary operator left right =>
      match operator with
      | .add | .subtract | .multiply | .divide => IsRational left ∧ IsRational right
      | .power => IsRational left ∧ IsExponent right
      | .modulo | .logBase => False
  | .call _ _ _ => False
  | .integral _ _ => False

theorem settlesWhole_literal {interpretation : Interpretation} {exponent : Expr (Option ℚ)}
    (literal : IsWholeLiteral exponent) : SettlesWhole interpretation exponent :=
  isWhole_of_simplify literal

theorem settlesWhole_number {interpretation : Interpretation} (number : ℤ) :
    SettlesWhole interpretation (interpretation.arithmetic.number number) :=
  isWhole_of_simplify ⟨number, .inl rfl⟩

/-- An exponent that is lowered by one is simplified to a whole constant too. -/
theorem settlesWhole_lowered {interpretation : Interpretation} {exponent : Expr (Option ℚ)}
    (literal : IsWholeLiteral exponent) :
    SettlesWhole interpretation (exponent - interpretation.arithmetic.number 1) := by
  obtain ⟨number, rfl | rfl⟩ := literal
  · have folded : ((Expr.const (some (number : ℚ)) -
        interpretation.arithmetic.number 1).simplify interpretation.arithmetic).outcome =
          .ok (.const (some ((number - 1 : ℤ) : ℚ))) := by
      rw [Int.cast_sub]
      rfl
    intro result simplified
    rw [folded] at simplified
    cases simplified
    exact ⟨number - 1, rfl⟩
  · have folded : ((Expr.unary .negate (.const (some (number : ℚ))) -
        interpretation.arithmetic.number 1).simplify interpretation.arithmetic).outcome =
          .ok (.const (some ((-number - 1 : ℤ) : ℚ))) := by
      rw [Int.cast_sub, Int.cast_neg]
      rfl
    intro result simplified
    rw [folded] at simplified
    cases simplified
    exact ⟨-number - 1, rfl⟩

/-- The derivative of an expression exists and has the given value, and its exponents
are simplified to whole constants. -/
def HasSlope (valuation : Valuation) (name : String) (expression : Expr (Option ℚ)) (slope : ℚ) :
    Prop :=
  ∃ derivative,
    expression.derivative valuation.interpretation.arithmetic name = .ok derivative ∧
    Denotes valuation derivative slope ∧
    derivative.ExponentsAre (SettlesWhole valuation.interpretation)

/-- An expression has a value and a slope, and its derivative has that slope as its
value. -/
structure Differentiates (valuation : Valuation) (name : String) (expression : Expr (Option ℚ))
    (dual : ℚ[ε]) : Prop where
  value : Denotes valuation expression dual.fst
  overDual : DualDenotes valuation name expression dual
  free : expression.mentions name = false → dual.snd = 0
  exponents : expression.ExponentsAre (SettlesWhole valuation.interpretation)
  slope : HasSlope valuation name expression dual.snd

section Rules

variable {valuation : Valuation} {name : String} {left right : Expr (Option ℚ)}
  {leftDual rightDual : ℚ[ε]}

theorem denotes_number (valuation : Valuation) (number : ℤ) :
    Denotes valuation (valuation.interpretation.arithmetic.number number) number :=
  denotes_const.mpr rfl

theorem Denotes.div {leftValue rightValue : ℚ} (leftDenotes : Denotes valuation left leftValue)
    (rightDenotes : Denotes valuation right rightValue) (nonzero : rightValue ≠ 0) :
    Denotes valuation (left / right) (leftValue / rightValue) :=
  denotes_binary.mpr ⟨leftValue, rightValue, leftDenotes, rightDenotes, if_neg nonzero⟩

theorem Denotes.power {leftValue : ℚ} {number : ℤ} (leftDenotes : Denotes valuation left leftValue)
    (rightDenotes : Denotes valuation right number) (defined : ¬ (leftValue = 0 ∧ number < 0)) :
    Denotes valuation (left ^ right) (leftValue ^ number) :=
  denotes_binary.mpr ⟨leftValue, number, leftDenotes, rightDenotes,
    power_intCast_eq_some.mpr ⟨defined, rfl⟩⟩

theorem IsWholeLiteral.exponents {allowed : Expr (Option ℚ) → Prop} {exponent : Expr (Option ℚ)}
    (literal : IsWholeLiteral exponent) : exponent.ExponentsAre allowed := by
  obtain ⟨number, rfl | rfl⟩ := literal
  · trivial
  · trivial

theorem hasSlope_of_not_mentions {expression : Expr (Option ℚ)}
    (free : expression.mentions name = false) : HasSlope valuation name expression 0 := by
  refine ⟨_, Expr.derivative_of_not_mentions free, ?_, trivial⟩
  simpa using denotes_number valuation 0

/-- The slope matters only where the variable is mentioned. -/
theorem hasSlope_of_mentions {expression : Expr (Option ℚ)} {slope : ℚ}
    (free : expression.mentions name = false → slope = 0)
    (mentioned : expression.mentions name = true → HasSlope valuation name expression slope) :
    HasSlope valuation name expression slope := by
  cases mentions : expression.mentions name with
  | false =>
      rw [free mentions]
      exact hasSlope_of_not_mentions mentions
  | true => exact mentioned mentions

theorem Differentiates.free_left (differentiates : Differentiates valuation name left leftDual)
    (free : (left.mentions name || right.mentions name) = false) : leftDual.snd = 0 :=
  differentiates.free (Bool.or_eq_false_iff.mp free).1

theorem Differentiates.free_right (differentiates : Differentiates valuation name right rightDual)
    (free : (left.mentions name || right.mentions name) = false) : rightDual.snd = 0 :=
  differentiates.free (Bool.or_eq_false_iff.mp free).2

theorem differentiates_const (value : ℚ) :
    Differentiates valuation name (.const (some value)) (inl value) where
  value := denotes_const.mpr rfl
  overDual := dualDenotes_const value
  free _ := rfl
  exponents := trivial
  slope := hasSlope_of_not_mentions rfl

theorem binding_of_denotes {other : String} {value : ℚ}
    (denotes : Denotes valuation (.var other) value) :
    valuation.bindings other = some (some value) := by
  rw [Denotes, Expr.evaluate] at denotes
  split at denotes
  next result isBound => rw [isBound, Except.ok.inj denotes]
  next => cases denotes

theorem differentiates_var {other : String} {value : ℚ}
    (bound : valuation.bindings other = some (some value)) :
    Differentiates valuation name (.var other)
      (if other = name then inl value + ε else inl value) := by
  have denotes : Denotes valuation (.var other) value := by
    rw [Denotes, Expr.evaluate, bound]
  have dual : DualDenotes valuation name (.var other) _ := dualDenotes_var bound
  by_cases same : other = name
  · subst same
    simp only [if_true] at dual ⊢
    refine ⟨by simpa using denotes, dual, by simp [Expr.mentions], trivial, ?_⟩
    refine ⟨_, Expr.derivative_var_self, ?_, trivial⟩
    simpa using denotes_number valuation 1
  · simp only [if_neg same] at dual ⊢
    refine ⟨denotes, dual, fun _ => rfl, trivial, ?_⟩
    exact hasSlope_of_not_mentions (by simpa [Expr.mentions] using same)

theorem Differentiates.neg (differentiates : Differentiates valuation name left leftDual) :
    Differentiates valuation name (.unary .negate left) (-leftDual) where
  value := differentiates.value.neg
  overDual := differentiates.overDual.neg
  free free := by simpa using differentiates.free free
  exponents := differentiates.exponents
  slope := by
    apply hasSlope_of_mentions
    · intro free
      simpa using differentiates.free free
    · intro mentioned
      obtain ⟨slope, isSlope, denotes, exponents⟩ := differentiates.slope
      exact ⟨_, Expr.derivative_neg isSlope mentioned, by simpa using denotes.neg, exponents⟩

section Binary

variable (first : Differentiates valuation name left leftDual)
  (second : Differentiates valuation name right rightDual)

include first second

/-- An operator other than the power has the dual value that those of the operands are combined
to, if its derivative is made from theirs. -/
theorem Differentiates.binary {operator : BinaryOperator} {dual : ℚ[ε]}
    (isValue : Denotes valuation (.binary operator left right) dual.fst)
    (combined : dualBinary operator (some leftDual) (some rightDual) = some dual)
    (still : leftDual.snd = 0 → rightDual.snd = 0 → dual.snd = 0)
    (notPower : operator ≠ .power)
    (hasSlope : ∀ leftSlope rightSlope,
      left.derivative valuation.interpretation.arithmetic name = .ok leftSlope →
      right.derivative valuation.interpretation.arithmetic name = .ok rightSlope →
      Denotes valuation leftSlope leftDual.snd → Denotes valuation rightSlope rightDual.snd →
      leftSlope.ExponentsAre (SettlesWhole valuation.interpretation) →
      rightSlope.ExponentsAre (SettlesWhole valuation.interpretation) →
      (left.mentions name || right.mentions name) = true →
      HasSlope valuation name (.binary operator left right) dual.snd) :
    Differentiates valuation name (.binary operator left right) dual := by
  have free : (Expr.binary operator left right).mentions name = false → dual.snd = 0 :=
    fun free => still (first.free_left free) (second.free_right free)
  refine ⟨isValue, first.overDual.binary second.overDual combined, free,
    ⟨first.exponents, second.exponents, fun isPower => absurd isPower notPower⟩,
    hasSlope_of_mentions free fun mentioned => ?_⟩
  obtain ⟨leftSlope, isLeft, leftDenotes, leftExponents⟩ := first.slope
  obtain ⟨rightSlope, isRight, rightDenotes, rightExponents⟩ := second.slope
  exact hasSlope leftSlope rightSlope isLeft isRight leftDenotes rightDenotes leftExponents
    rightExponents mentioned

theorem Differentiates.add : Differentiates valuation name (left + right) (leftDual + rightDual) := by
  refine first.binary second (first.value.add second.value) rfl (by simp_all) (by decide) ?_
  intro leftSlope rightSlope isLeft isRight leftDenotes rightDenotes leftExponents rightExponents
    mentioned
  exact ⟨_, Expr.derivative_add isLeft isRight mentioned,
    by simpa using leftDenotes.add rightDenotes, leftExponents, rightExponents, nofun⟩

theorem Differentiates.sub : Differentiates valuation name (left - right) (leftDual - rightDual) := by
  refine first.binary second (first.value.sub second.value) rfl (by simp_all) (by decide) ?_
  intro leftSlope rightSlope isLeft isRight leftDenotes rightDenotes leftExponents rightExponents
    mentioned
  exact ⟨_, Expr.derivative_sub isLeft isRight mentioned,
    by simpa using leftDenotes.sub rightDenotes, leftExponents, rightExponents, nofun⟩

theorem Differentiates.mul : Differentiates valuation name (left * right) (leftDual * rightDual) := by
  refine first.binary second (first.value.mul second.value) rfl (by simp_all) (by decide) ?_
  intro leftSlope rightSlope isLeft isRight leftDenotes rightDenotes leftExponents rightExponents
    mentioned
  refine ⟨_, Expr.derivative_mul isLeft isRight mentioned, ?_,
    ⟨leftExponents, second.exponents, nofun⟩, ⟨first.exponents, rightExponents, nofun⟩, nofun⟩
  have product := (leftDenotes.mul second.value).add (first.value.mul rightDenotes)
  rw [add_comm, mul_comm leftDual.snd] at product
  rwa [DualNumber.snd_mul, mul_comm leftDual.snd]

theorem Differentiates.div (invertible : rightDual.fst ≠ 0) :
    Differentiates valuation name (left / right) (leftDual * rightDual⁻¹) := by
  have isValue : Denotes valuation (left / right) (leftDual * rightDual⁻¹).fst := by
    simpa [div_eq_mul_inv] using first.value.div second.value invertible
  refine first.binary second isValue (if_neg invertible) (by simp_all) (by decide) ?_
  intro leftSlope rightSlope isLeft isRight leftDenotes rightDenotes leftExponents rightExponents
    mentioned
  refine ⟨_, Expr.derivative_div isLeft isRight mentioned, ?_,
    ⟨⟨leftExponents, second.exponents, nofun⟩, ⟨first.exponents, rightExponents, nofun⟩, nofun⟩,
    ⟨second.exponents, trivial, fun _ => settlesWhole_number 2⟩, nofun⟩
  have numerator := (leftDenotes.mul second.value).sub (first.value.mul rightDenotes)
  have square := second.value.power (denotes_number valuation 2) (by simp)
  have slope : (leftDual * rightDual⁻¹).snd =
      (leftDual.snd * rightDual.fst - leftDual.fst * rightDual.snd) / rightDual.fst ^ (2 : ℤ) := by
    simp
    field_simp
    ring
  rw [slope]
  exact numerator.div square (zpow_ne_zero 2 invertible)

end Binary

/-- A literal exponent has its number as its value and does not mention a variable. -/
theorem IsExponent.literal (valuation : Valuation) (name : String)
    {exponent : Expr (Option ℚ)} (isExponent : IsExponent exponent) :
    ∃ number : ℤ, number ≠ 0 ∧ IsWholeLiteral exponent ∧ Denotes valuation exponent number ∧
      DualDenotes valuation name exponent (inl (number : ℚ)) ∧ exponent.mentions name = false := by
  obtain ⟨number, nonzero, rfl | rfl⟩ := isExponent
  · exact ⟨number, nonzero, ⟨number, .inl rfl⟩, denotes_const.mpr rfl, dualDenotes_const _, rfl⟩
  · refine ⟨-number, neg_ne_zero.mpr nonzero, ⟨number, .inr rfl⟩, ?_, ?_, rfl⟩
    · rw [Int.cast_neg]
      exact Denotes.neg (denotes_const.mpr rfl)
    · rw [Int.cast_neg, inl_neg]
      exact (dualDenotes_const (number : ℚ)).neg

theorem Differentiates.power {exponent : Expr (Option ℚ)} {number : ℤ}
    (first : Differentiates valuation name left leftDual) (nonzero : number ≠ 0)
    (literal : IsWholeLiteral exponent) (isNumber : Denotes valuation exponent number)
    (isDual : DualDenotes valuation name exponent (inl (number : ℚ)))
    (isFree : exponent.mentions name = false)
    (defined : ¬ (leftDual.fst = 0 ∧ number < 0)) :
    Differentiates valuation name (left ^ exponent) (wholePower leftDual number) := by
  have slope := snd_wholePower leftDual nonzero defined
  have free : (left ^ exponent).mentions name = false → (wholePower leftDual number).snd = 0 := by
    intro free
    rw [slope, first.free_left free, mul_zero]
  have combined : dualBinary .power (some leftDual) (some (inl (number : ℚ))) =
      some (wholePower leftDual number) := by
    simp [dualBinary, defined]
  refine ⟨?_, first.overDual.binary isDual combined, free,
    ⟨first.exponents, literal.exponents, fun _ => settlesWhole_literal literal⟩, ?_⟩
  · simpa using first.value.power isNumber defined
  · apply hasSlope_of_mentions free
    intro mentioned
    have leftMentioned : left.mentions name = true := by
      simpa [HPow.hPow, Expr.mentions, isFree] using mentioned
    obtain ⟨leftSlope, isLeft, leftDenotes, leftExponents⟩ := first.slope
    refine ⟨_, Expr.derivative_power isLeft leftMentioned isFree, ?_,
      ⟨literal.exponents, ⟨first.exponents, ⟨literal.exponents, trivial, nofun⟩,
        fun _ => settlesWhole_lowered literal⟩, nofun⟩, leftExponents, nofun⟩
    have lowered : Denotes valuation (exponent - valuation.interpretation.arithmetic.number 1)
        ((number - 1 : ℤ) : ℚ) := by
      simpa using isNumber.sub (denotes_number valuation 1)
    have loweredDefined : ¬ (leftDual.fst = 0 ∧ number - 1 < 0) := by
      rintro ⟨zero, below⟩
      exact defined ⟨zero, by omega⟩
    rw [slope]
    exact (isNumber.mul (first.value.power lowered loweredDefined)).mul leftDenotes

end Rules

/-- Over dual numbers a rational expression is defined wherever it is defined at all. -/
theorem exists_differentiates {valuation : Valuation} (name : String)
    {expression : Expr (Option ℚ)} {value : ℚ} (rational : IsRational expression)
    (denotes : Denotes valuation expression value) :
    ∃ dual : ℚ[ε], dual.fst = value ∧ Differentiates valuation name expression dual := by
  match expression with
  | .const constant =>
      obtain rfl := denotes_const.mp denotes
      exact ⟨_, rfl, differentiates_const value⟩
  | .var other =>
      refine ⟨_, ?_, differentiates_var (binding_of_denotes denotes)⟩
      rw [apply_ite TrivSqZeroExt.fst]
      simp
  | .unary operator operand =>
      obtain ⟨rfl, operandRational⟩ := rational
      obtain ⟨operandValue, operandDenotes, rfl⟩ := denotes_neg.mp denotes
      obtain ⟨dual, rfl, differentiates⟩ :=
        exists_differentiates name operandRational operandDenotes
      exact ⟨-dual, fst_neg dual, differentiates.neg⟩
  | .binary operator left right =>
      obtain ⟨leftValue, rightValue, leftDenotes, rightDenotes, combined⟩ :=
        denotes_binary.mp denotes
      match operator with
      | .add =>
          obtain ⟨leftDual, rfl, first⟩ := exists_differentiates name rational.1 leftDenotes
          obtain ⟨rightDual, rfl, second⟩ := exists_differentiates name rational.2 rightDenotes
          cases combined
          exact ⟨leftDual + rightDual, rfl, first.add second⟩
      | .subtract =>
          obtain ⟨leftDual, rfl, first⟩ := exists_differentiates name rational.1 leftDenotes
          obtain ⟨rightDual, rfl, second⟩ := exists_differentiates name rational.2 rightDenotes
          cases combined
          exact ⟨leftDual - rightDual, rfl, first.sub second⟩
      | .multiply =>
          obtain ⟨leftDual, rfl, first⟩ := exists_differentiates name rational.1 leftDenotes
          obtain ⟨rightDual, rfl, second⟩ := exists_differentiates name rational.2 rightDenotes
          cases combined
          exact ⟨leftDual * rightDual, rfl, first.mul second⟩
      | .divide =>
          obtain ⟨leftDual, rfl, first⟩ := exists_differentiates name rational.1 leftDenotes
          obtain ⟨rightDual, rfl, second⟩ := exists_differentiates name rational.2 rightDenotes
          obtain ⟨invertible, isQuotient⟩ := Option.ite_none_left_eq_some.mp combined
          refine ⟨_, ?_, first.div second invertible⟩
          rw [← Option.some.inj isQuotient, div_eq_mul_inv]
          rfl
      | .power =>
          obtain ⟨leftDual, rfl, first⟩ := exists_differentiates name rational.1 leftDenotes
          obtain ⟨number, nonzero, literal, isNumber, isDual, isFree⟩ :=
            rational.2.literal valuation name
          obtain rfl := rightDenotes.unique isNumber
          obtain ⟨defined, rfl⟩ := power_intCast_eq_some.mp combined
          exact ⟨_, fst_wholePower leftDual number,
            first.power nonzero literal isNumber isDual isFree defined⟩
      | .modulo => exact rational.elim
      | .logBase => exact rational.elim

/-- The simplified derivative of a rational expression exists, is defined wherever the
expression is, and its value there is the slope of the expression over dual numbers. -/
theorem differentiate_denotes_slope (valuation : Valuation) (name : String)
    {expression : Expr (Option ℚ)} {value : ℚ} (rational : IsRational expression)
    (denotes : Denotes valuation expression value) :
    ∃ (dual : ℚ[ε]) (result : Expr (Option ℚ)),
      DualDenotes valuation name expression dual ∧ dual.fst = value ∧
      (expression.differentiate valuation.interpretation.arithmetic name).outcome = .ok result ∧
      Denotes valuation result dual.snd := by
  obtain ⟨dual, isValue, differentiates⟩ := exists_differentiates name rational denotes
  obtain ⟨derivative, isDerivative, slope, exponents⟩ := differentiates.slope
  obtain ⟨result, simplified, represents⟩ := represents_of_simplify exponents slope
  exact ⟨dual, result, differentiates.overDual, isValue,
    Expr.differentiate_eq_ok.mpr ⟨derivative, isDerivative, simplified⟩, represents.denotes⟩

section Instance

/-- The quotient `x ^ (-2) / (x + 1)`. -/
def inverseSquareQuotient : Expr (Option ℚ) :=
  .binary .power (.var "x") (.unary .negate (.const (some (2 : ℤ)))) / (.var "x" + .const (some 1))

theorem differentiate_denotes_inverseSquareQuotient :
    IsRational inverseSquareQuotient ∧ Denotes atThree inverseSquareQuotient (1 / 36) ∧
      ∃ (dual : ℚ[ε]) (result : Expr (Option ℚ)),
        DualDenotes atThree "x" inverseSquareQuotient dual ∧ dual.fst = 1 / 36 ∧
        (inverseSquareQuotient.differentiate atThree.interpretation.arithmetic "x").outcome =
          .ok result ∧
        Denotes atThree result dual.snd := by
  have rational : IsRational inverseSquareQuotient :=
    ⟨⟨trivial, 2, by decide, .inr rfl⟩, trivial, trivial⟩
  have three : Denotes atThree (.var "x") 3 := rfl
  have minusTwo : Denotes atThree (.unary .negate (.const (some (2 : ℤ)))) (-2 : ℤ) :=
    denotes_neg.mpr ⟨(2 : ℤ), denotes_const.mpr rfl, Int.cast_neg 2⟩
  have divisor : Denotes atThree (.var "x" + .const (some 1)) (3 + 1) :=
    three.add (denotes_const.mpr rfl)
  have total : (1 / 36 : ℚ) = 3 ^ (-2 : ℤ) / (3 + 1) := by norm_num
  have denotes : Denotes atThree inverseSquareQuotient (1 / 36) := by
    rw [total]
    exact (three.power minusTwo (by norm_num)).div divisor (by norm_num)
  exact ⟨rational, denotes, differentiate_denotes_slope atThree "x" rational denotes⟩

end Instance

end Exact

end ExprCalculus
