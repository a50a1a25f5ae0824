import ExprCalculus.Proofs.Doubles.Equality
import ExprCalculus.Proofs.Factoring.Failures

/-!
# Whole doubles in factoring

A whole number that is a double is converted to this double and counts as itself.  The
quotient of two whole doubles is exact if it is a whole number, because the long division
of their coefficients leaves no remainder.
-/

namespace ExprCalculus

namespace Binary64

open Float.Model Float.Model.UnpackedFloat

variable {value other : Float} {number : ℤ}

section Conversions

/-- Only the two zeros are different doubles with the same value. -/
theorem IsWhole.eq_of_ne_zero (whole : IsWhole value number) (again : IsWhole other number)
    (nonzero : number ≠ 0) : value = other := by
  have notBelow : ¬ value < other := by
    rw [lt_iff_of_toRat whole again]
    exact lt_irrefl _
  have notAbove : ¬ other < value := by
    rw [lt_iff_of_toRat again whole]
    exact lt_irrefl _
  rw [lt_iff] at notBelow notAbove
  simp only [whole.defined, again.defined, true_and, not_lt] at notBelow notAbove
  exact eq_of_rank_eq (le_antisymm notAbove notBelow) (whole.rank_ne_zero nonzero)

/-- Different whole doubles are apart from each other. -/
theorem apart_of_ne {settings : Settings} (atMostOne : settings.epsilon ≤ 1.0) {second : ℤ}
    (whole : IsWhole value number) (otherWhole : IsWhole other second)
    (different : number ≠ second) : settings.apart value other = true := by
  obtain ⟨defined, large⟩ := (whole.sub otherWhole).large (sub_ne_zero.mpr different)
  rw [le_iff] at atMostOne
  have one : rank 1.0 = rank (ofInt 1) := rfl
  rw [apart_eq_true, le_iff, isNaN_abs, rank_abs _ defined]
  exact ⟨atMostOne.1, defined, by omega⟩

theorem signBit_of_isWhole {sign : Sign} {coefficient : ℕ} {exponent : ℤ}
    {positive : 0 < coefficient}
    (parts : unpacked value = .finite sign coefficient exponent positive)
    (isNumber : ((sign.apply coefficient : ℤ) : ℚ) * 2 ^ exponent = number) :
    signBit value = decide (number < 0) := by
  have magnitude : (0 : ℚ) < coefficient * 2 ^ exponent :=
    mul_pos (Nat.cast_pos.mpr positive) (two_zpow_pos exponent)
  rw [signBit_eq, parts, decide_eq_decide, ← Int.cast_lt_zero (R := ℚ), ← isNumber]
  cases sign with
  | negative =>
      rw [Sign.apply, Int.cast_neg, neg_mul, Int.cast_natCast]
      exact iff_of_true rfl (neg_neg_of_pos magnitude)
  | positive =>
      rw [Sign.apply, Int.cast_natCast]
      exact iff_of_false Nat.zero_ne_one magnitude.not_gt

/-- A whole number is rounded to the double that it is. -/
theorem ofRatio?_of_isWhole (whole : IsWhole value number) (nonzero : number ≠ 0) :
    ofRatio? (number < 0) number.natAbs 1 = some value := by
  rcases whole.cases with ⟨_, _, rfl⟩ | ⟨sign, coefficient, exponent, positive, parts, isNumber⟩
  · exact absurd rfl nonzero
  have isMagnitude : magnitude? value = some (coefficient, exponent) := by
    rw [magnitude?_eq, parts]
  have near : Near coefficient exponent ((number.natAbs : ℚ) / (1 : ℕ)) := by
    rw [Nat.cast_one, div_one, natAbs_of_value isNumber]
    exact near_self coefficient exponent
  rw [← signBit_of_isWhole parts isNumber]
  exact ofRatio?_of_near Nat.one_pos isMagnitude positive near

theorem isWhole_ofInt (representable : Representable number) : IsWhole (ofInt number) number := by
  by_cases isZero : number = 0
  · subst isZero
    exact (isWhole_of_zero rfl).mpr rfl
  · obtain ⟨value, whole⟩ := representable
    have converted : ofInt? number = some value := ofRatio?_of_isWhole whole isZero
    unfold ofInt
    rwa [converted]

theorem exists_ofRat?_of_representable (representable : Representable number) :
    ∃ value, ofRat? (number : ℚ) = some value ∧ IsWhole value number := by
  by_cases isZero : number = 0
  · subst isZero
    exact ⟨0.0, by decide +kernel, isWhole_zero⟩
  · obtain ⟨value, whole⟩ := representable
    refine ⟨value, ?_, whole⟩
    unfold ofRat?
    rw [Rat.num_intCast, Rat.den_intCast]
    simp only [Int.cast_lt_zero]
    exact ofRatio?_of_isWhole whole isZero

end Conversions

section Division

variable {quotient divisor : ℤ}

theorem div_mul_sign (sign otherSign : Sign) : sign / otherSign * otherSign = sign := by
  cases sign <;> cases otherSign <;> rfl

/-- The exponents of three coefficients of 53 bits, one of which is the product of the
others. -/
theorem exponent_of_product {coefficient otherCoefficient target : ℕ}
    {exponent targetExponent : ℤ} (full : 2 ^ 52 ≤ coefficient) (small : coefficient < 2 ^ 53)
    (otherFull : 2 ^ 52 ≤ otherCoefficient) (otherSmall : otherCoefficient < 2 ^ 53)
    (targetFull : 2 ^ 52 ≤ target) (targetSmall : target < 2 ^ 53)
    (product : (coefficient : ℚ) * 2 ^ exponent =
      (target * otherCoefficient : ℕ) * 2 ^ targetExponent) :
    targetExponent + 52 ≤ exponent ∧ exponent ≤ targetExponent + 53 := by
  have atLeast : 2 ^ 52 * 2 ^ 52 ≤ target * otherCoefficient := Nat.mul_le_mul targetFull otherFull
  have below : target * otherCoefficient < 2 ^ 53 * 2 ^ 53 :=
    Nat.mul_lt_mul'' targetSmall otherSmall
  have order : targetExponent ≤ exponent := by
    by_contra shorter
    have lengthened := coefficient_of_value (not_le.mp shorter).le product
    have more := Nat.le_mul_of_pos_right (target * otherCoefficient)
      (Nat.two_pow_pos (targetExponent - exponent).toNat)
    omega
  have lengthened := coefficient_of_value order product.symm
  obtain ⟨amount, isAmount⟩ : ∃ amount, (exponent - targetExponent).toNat = amount := ⟨_, rfl⟩
  rw [isAmount] at lengthened
  constructor
  · by_contra short
    have atMost := Nat.mul_le_mul_left coefficient
      (Nat.pow_le_pow_right Nat.two_pos (by omega : amount ≤ 51))
    omega
  · by_contra long
    have least := Nat.mul_le_mul_left coefficient
      (Nat.pow_le_pow_right Nat.two_pos (by omega : 54 ≤ amount))
    omega

/-- The long division of a product by one of its factors leaves no remainder. -/
theorem divCore_of_product {coefficient otherCoefficient target : ℕ}
    {exponent otherExponent targetExponent : ℤ} (full : 2 ^ 52 ≤ coefficient)
    (small : coefficient < 2 ^ 53) (otherFull : 2 ^ 52 ≤ otherCoefficient)
    (otherSmall : otherCoefficient < 2 ^ 53) (targetFull : 2 ^ 52 ≤ target)
    (targetSmall : target < 2 ^ 53) (targetLeast : -52 ≤ targetExponent)
    (product : (coefficient : ℚ) * 2 ^ (exponent - otherExponent) =
      (target * otherCoefficient : ℕ) * 2 ^ targetExponent) :
    ∃ amount : ℕ, divCore Format.binary64 coefficient exponent otherCoefficient otherExponent =
      (target * 2 ^ amount, targetExponent - amount, .exact) := by
  obtain ⟨atLeast, atMost⟩ :=
    exponent_of_product full small otherFull otherSmall targetFull targetSmall product
  have scaled : ((coefficient * 2 ^ 53 : ℕ) : ℚ) * 2 ^ (exponent - otherExponent - 53) =
      (target * otherCoefficient : ℕ) * 2 ^ targetExponent := by
    rw [← product, zpow_sub₀ (by norm_num) _ 53]
    push_cast
    field_simp
  have dividend := coefficient_of_value (by omega) scaled
  obtain ⟨amount, isAmount⟩ :
      ∃ amount, (targetExponent - (exponent - otherExponent - 53)).toNat = amount := ⟨_, rfl⟩
  rw [isAmount, Nat.mul_right_comm] at dividend
  refine ⟨amount, ?_⟩
  rw [divCore_eq ((Nat.log2_eq_iff (by omega)).mpr ⟨full, small⟩)
    ((Nat.log2_eq_iff (by omega)).mpr ⟨otherFull, otherSmall⟩) (by omega), dividend,
    Nat.mul_div_cancel _ (by omega), Nat.mul_mod_left]
  refine Prod.ext rfl (Prod.ext ?_ rfl)
  dsimp only
  omega

/-- The quotient of two whole doubles is exact if it is a whole number. -/
theorem IsWhole.div {quotient divisor : ℤ} (whole : IsWhole value (quotient * divisor))
    (otherWhole : IsWhole other divisor) (quotientNonzero : quotient ≠ 0)
    (nonzero : divisor ≠ 0) : IsWhole (value / other) quotient := by
  have product : quotient * divisor ≠ 0 := mul_ne_zero quotientNonzero nonzero
  obtain ⟨exactly, exactlyWhole⟩ : Representable quotient :=
    Representable.of_dvd ⟨value, whole⟩ product (dvd_mul_right quotient divisor)
  obtain ⟨_, _, isZero⟩ | ⟨sign, coefficient, exponent, positive, parts, isProduct⟩ := whole.cases
  · exact absurd isZero product
  obtain ⟨_, _, isZero⟩ | ⟨otherSign, otherCoefficient, otherExponent, otherPositive, otherParts,
    isDivisor⟩ := otherWhole.cases
  · exact absurd isZero nonzero
  obtain ⟨_, _, isZero⟩ | ⟨targetSign, target, targetExponent, targetPositive, targetParts,
    isQuotient⟩ := exactlyWhole.cases
  · exact absurd isZero quotientNonzero
  have canonical := isCanonical_unpacked value
  have otherCanonical := isCanonical_unpacked other
  have targetCanonical := isCanonical_unpacked exactly
  rw [parts] at canonical
  rw [otherParts] at otherCanonical
  rw [targetParts] at targetCanonical
  obtain ⟨full, -⟩ := normal_of_whole canonical isProduct
  obtain ⟨otherFull, -⟩ := normal_of_whole otherCanonical isDivisor
  obtain ⟨targetFull, targetLeast⟩ := normal_of_whole targetCanonical isQuotient
  have magnitudes := natAbs_of_value isProduct
  rw [Int.natAbs_mul, Nat.cast_mul, natAbs_of_value isQuotient, natAbs_of_value isDivisor]
    at magnitudes
  have divided : (coefficient : ℚ) * 2 ^ (exponent - otherExponent) =
      (target * otherCoefficient : ℕ) * 2 ^ targetExponent := by
    rw [zpow_sub₀ (by norm_num), ← mul_div_assoc, ← magnitudes]
    push_cast
    field_simp
  obtain ⟨amount, isCore⟩ := divCore_of_product full canonical.1 otherFull otherCanonical.1
    targetFull targetCanonical.1 targetLeast divided
  have result : value / other =
      packed (UnpackedFloat.div Format.binary64 (unpacked value) (unpacked other)) := rfl
  have exactCanonical :
      IsCanonical (.finite (sign / otherSign) target targetExponent targetPositive) :=
    targetCanonical
  rw [result, parts, otherParts]
  change IsWhole (packed (let (m, e, accuracy) := divCore Format.binary64 _ _ _ _
    roundWithAccuracy _ _ m e accuracy)) _
  rw [isCore]
  dsimp only
  rw [roundWithAccuracy_exact exactCanonical, isWhole_of_finite (unpacked_packed exactCanonical)]
  -- The sign is found by multiplying with the divisor again.
  have divisorCast : (divisor : ℚ) ≠ 0 := Int.cast_ne_zero.mpr nonzero
  apply mul_right_cancel₀ divisorCast
  rw [← Int.cast_mul, ← isProduct, ← isDivisor, mul_mul_mul_comm, ← Int.cast_mul, ← apply_mul,
    div_mul_sign]
  cases sign with
  | negative =>
      simp only [Sign.apply, Int.cast_neg, Int.cast_mul, Int.cast_natCast, neg_mul]
      rw [mul_mul_mul_comm, magnitudes]
  | positive =>
      simp only [Sign.apply, Int.cast_mul, Int.cast_natCast]
      rw [mul_mul_mul_comm, magnitudes]

end Division

end Binary64

namespace Doubles

open Binary64

section Counting

variable {value : Float} {number : ℤ}

theorem roundHalfEven_intCast (number : ℤ) : roundHalfEven (number : ℚ) = number := by
  have rounds : RoundsTo ((number.natAbs : ℚ) / (1 : ℕ)) number.natAbs := by
    rw [Nat.cast_one, div_one]
    exact ⟨by linarith, by linarith, fun _ => ⟨by linarith, by linarith⟩⟩
  unfold roundHalfEven
  rw [Rat.num_intCast, Rat.den_intCast, roundRatio_eq Nat.one_pos rounds]
  simp only [Int.cast_lt_zero]
  split <;> omega

/-- A whole double counts as the number that it is. -/
theorem whole?_of_isWhole (whole : IsWhole value number) : whole? value = .ok (some number) := by
  have converted := isWhole_ofInt ⟨value, whole⟩
  have difference := (whole.sub converted).exact ⟨0.0, by rw [sub_self]; exact isWhole_zero⟩
  rw [sub_self] at difference
  obtain ⟨defined, rankZero⟩ := difference.rank_eq_zero
  have near : (value - ofInt number).abs < 1e-9 := by
    rw [lt_iff, isNaN_abs, rank_abs _ defined, rankZero]
    exact ⟨defined, by decide, by decide⟩
  unfold whole? wholeNear
  rw [exactly_eq_ok.mpr whole, except_ok_bind]
  dsimp only
  rw [roundHalfEven_intCast, except_pure, except_ok_bind]
  dsimp only
  rw [if_pos near]
  rfl

/-- A whole double is replaced by the same number. -/
theorem exists_snap_of_isWhole (settings : Settings) (whole : IsWhole value number) :
    ∃ snapped, (factoring settings).snap value = .ok snapped ∧ IsWhole snapped number := by
  refine ⟨ofInt number, ?_, isWhole_ofInt ⟨value, whole⟩⟩
  have counted : (factoring settings).whole? value = .ok (some number) := whole?_of_isWhole whole
  unfold FactoringArithmetic.snap
  rw [counted, except_ok_bind]
  rfl

end Counting

end Doubles

end ExprCalculus
