import ExprCalculus.Proofs.Doubles.Values

/-!
# Finite doubles

The finite doubles are the ones with an exact value.  A rational number that is not too
large is rounded to one of them, and the difference of an infinite or undefined double and
another one is infinite or undefined again.
-/

namespace ExprCalculus

namespace Binary64

open Float.Model Float.Model.UnpackedFloat

section Values

variable {value other : Float} {number : ℚ}

theorem isFinite_iff : value.isFinite = true ↔ ∃ number, toRat? value = some number := by
  rw [← Bool.not_eq_false, ← toRat?_eq_none, ← ne_eq, Option.ne_none_iff_exists']

/-- A double that is not whole is below the numbers from which on all doubles are whole. -/
theorem abs_lt_of_den_ne_one (isValue : toRat? value = some number) (fraction : number.den ≠ 1) :
    |number| < 2 ^ 53 := by
  obtain ⟨sign, coefficient, exponent, parts⟩ := exists_isParts isValue
  have small : (coefficient : ℚ) < 2 ^ 53 := by exact_mod_cast parts.small
  have size : |((sign.apply (coefficient : ℤ) : ℤ) : ℚ)| = coefficient := by
    cases sign <;> simp [Sign.apply]
  rw [parts.isNumber, abs_mul, size, abs_of_pos (two_zpow_pos exponent)]
  have negative : exponent < 0 := by
    by_contra nonnegative
    obtain ⟨power, rfl⟩ := Int.eq_ofNat_of_zero_le (not_lt.mp nonnegative)
    apply fraction
    have isWhole : number = ((sign.apply (coefficient : ℤ) * 2 ^ power : ℤ) : ℚ) := by
      rw [parts.isNumber]
      push_cast
      rw [zpow_natCast]
    rw [isWhole, Rat.den_intCast]
  have unit : (2 : ℚ) ^ exponent ≤ 1 := zpow_le_one_of_nonpos₀ (by norm_num) negative.le
  calc (coefficient : ℚ) * 2 ^ exponent ≤ coefficient * 1 :=
        mul_le_mul_of_nonneg_left unit (Nat.cast_nonneg _)
    _ < 2 ^ 53 := by rwa [mul_one]

theorem toRat?_abs (isValue : toRat? value = some number) : toRat? value.abs = some |number| := by
  have absParts : unpacked value.abs = (unpacked value).abs := unpacked_abs value
  have finite := isFinite_of_toRat? isValue
  change (unpacked value).isFinite = true at finite
  cases parts : unpacked value with
  | infinity | notANumber =>
      rw [parts] at finite
      cases finite
  | zero sign =>
      rw [parts] at absParts
      have isZero := (isWhole_of_zero parts).mpr rfl
      have absZero := (isWhole_of_zero absParts).mpr rfl
      rw [IsWhole, isValue, Option.some.injEq] at isZero
      rw [isZero, Int.cast_zero, abs_zero]
      exact absZero
  | finite sign coefficient exponent positive =>
      rw [parts] at absParts
      have isNumber := toRat?_eq parts
      rw [isValue, Option.some.injEq] at isNumber
      have magnitude : (0 : ℚ) ≤ coefficient * 2 ^ exponent :=
        mul_nonneg (Nat.cast_nonneg _) (two_zpow_pos exponent).le
      rw [toRat?_eq absParts, isNumber]
      cases sign with
      | positive => exact congrArg some (abs_of_nonneg magnitude).symm
      | negative => exact congrArg some ((abs_neg _).trans (abs_of_nonneg magnitude)).symm

/-- The only double above one that is not finite is the infinity. -/
theorem eq_infinity_iff : value = infinity ↔ (1.0 : Float) ≤ value ∧ value.isFinite = false := by
  constructor
  · rintro rfl
    exact ⟨by decide +kernel, by decide +kernel⟩
  · rintro ⟨large, infinite⟩
    rw [le_iff] at large
    obtain ⟨-, defined, large⟩ := large
    rw [isNaN_eq_false] at defined
    change (unpacked value).isFinite = false at infinite
    apply unpacked_injective
    rw [unpacked_infinity]
    have one : 0 < rank 1.0 := by decide
    unfold rank at large one
    cases parts : unpacked value with
    | notANumber => exact absurd parts defined
    | infinity sign =>
        cases sign with
        | positive => rfl
        | negative =>
            rw [parts, rank_infinity_negative] at large
            omega
    | zero sign =>
        rw [parts] at infinite
        cases infinite
    | finite sign coefficient exponent positive =>
        rw [parts] at infinite
        cases infinite

/-- No double is above infinity. -/
theorem rank_le (defined : value.isNaN = false) : rank value ≤ 2047 * 2 ^ 52 := by
  rw [isNaN_eq_false] at defined
  have canonical := isCanonical_unpacked value
  unfold rank
  cases parts : unpacked value with
  | notANumber => exact absurd parts defined
  | infinity sign =>
      cases sign with
      | positive => exact rank_infinity_positive.le
      | negative => decide
  | zero sign =>
      rw [rank_zero]
      decide
  | finite sign coefficient exponent positive =>
      rw [parts] at canonical
      cases sign with
      | positive => exact (rank_finite_positive canonical).2.le
      | negative =>
          have below := (rank_finite_negative canonical).2
          omega

theorem sub_of_infinite {parts : UnpackedFloat} (infinite : parts.isFinite = false)
    (other : UnpackedFloat) :
    parts.sub Format.binary64 other = .notANumber ∨
      ∃ sign, parts.sub Format.binary64 other = .infinity sign := by
  cases parts with
  | notANumber => exact .inl (by cases other <;> rfl)
  | infinity sign =>
      cases other with
      | notANumber => exact .inl rfl
      | infinity otherSign =>
          cases sign <;> cases otherSign
          · exact .inl rfl
          · exact .inr ⟨_, rfl⟩
          · exact .inr ⟨_, rfl⟩
          · exact .inl rfl
      | zero | finite => exact .inr ⟨sign, rfl⟩
  | zero | finite => cases infinite

/-- No difference from an infinite or undefined double is finite. -/
theorem isFinite_sub (infinite : value.isFinite = false) (other : Float) :
    (value - other).isFinite = false := by
  have difference : value - other =
      packed (UnpackedFloat.sub Format.binary64 (unpacked value) (unpacked other)) := rfl
  have infiniteParts : (unpacked value).isFinite = false := infinite
  rw [difference]
  rcases sub_of_infinite infiniteParts (unpacked other) with undefined | ⟨sign, infinite⟩
  · rw [undefined]
    decide +kernel
  · rw [infinite]
    cases sign <;> decide +kernel

/-- The magnitude of an infinite or undefined double is not below any double. -/
theorem not_abs_lt (infinite : value.isFinite = false) (bound : Float) :
    ¬ value.abs < bound := by
  rw [lt_iff, isNaN_abs]
  rintro ⟨defined, boundDefined, below⟩
  have greatest := rank_le boundDefined
  rw [rank_abs value defined] at below
  rw [isNaN_eq_false] at defined
  change (unpacked value).isFinite = false at infinite
  unfold rank at below
  cases parts : unpacked value with
  | notANumber => exact absurd parts defined
  | infinity sign =>
      have size : |rankOfParts (.infinity sign)| = 2047 * 2 ^ 52 := by cases sign <;> decide
      rw [parts, size] at below
      unfold rank at greatest
      omega
  | zero | finite =>
      rw [parts] at infinite
      cases infinite

end Values

section Conversions

variable {numerator denominator : ℕ} {number : ℚ}

/-- A ratio that is far from the largest double is rounded to a double. -/
theorem exists_nearestBits? (positive : 0 < denominator)
    (small : (numerator : ℚ) / denominator < 2 ^ (1000 : ℤ)) :
    ∃ bits, nearestBits? numerator denominator = some bits := by
  by_cases zero : numerator = 0
  · exact ⟨0, if_pos zero⟩
  have numeratorPositive : 0 < numerator := by omega
  have ratioPositive : (0 : ℚ) < (numerator : ℚ) / denominator :=
    div_pos (Nat.cast_pos.mpr numeratorPositive) (Nat.cast_pos.mpr positive)
  have logSmall : Int.log 2 ((numerator : ℚ) / denominator) < 1000 :=
    (Int.lt_zpow_iff_log_lt (by norm_num) ratioPositive).mp (by exact_mod_cast small)
  obtain ⟨unit, isUnit⟩ :
      ∃ unit, max (Int.log 2 ((numerator : ℚ) / denominator) - 52) (-1074) = unit := ⟨_, rfl⟩
  have unitPositive := two_zpow_pos unit
  have below : (numerator : ℚ) / denominator < 2 ^ (unit + 53) := by
    have upper : (numerator : ℚ) / denominator < ((2 : ℕ) : ℚ) ^ (unit + 53) :=
      (Int.lt_zpow_iff_log_lt (by norm_num) ratioPositive).mpr (by omega)
    exact_mod_cast upper
  have scaledPositive : 0 < denominator * Nat.pow 2 unit.toNat :=
    Nat.mul_pos positive (Nat.pow_pos (by norm_num))
  have quotientSmall : numerator * Nat.pow 2 (-unit).toNat / (denominator * Nat.pow 2 unit.toNat) <
      2 ^ 53 := by
    have isScaled := @ratio_div_zpow 2 numerator denominator (by norm_num) unit
    rw [zpow_add₀ (by norm_num), mul_comm, ← div_lt_iff₀ unitPositive] at below
    have upper : ((numerator * Nat.pow 2 (-unit).toNat : ℕ) : ℚ) /
        ((denominator * Nat.pow 2 unit.toNat : ℕ) : ℚ) < 2 ^ (53 : ℤ) :=
      isScaled.trans_lt (by exact_mod_cast below)
    rw [div_lt_iff₀ (Nat.cast_pos.mpr scaledPositive)] at upper
    rw [Nat.div_lt_iff_lt_mul scaledPositive]
    exact_mod_cast upper
  obtain ⟨-, atMost⟩ := roundRatio_bounds (numerator * Nat.pow 2 (-unit).toNat)
    (denominator * Nat.pow 2 unit.toNat)
  unfold nearestBits?
  rw [if_neg zero, binaryExponent_eq_log numeratorPositive positive, isUnit]
  dsimp only
  rw [if_pos]
  · exact ⟨_, rfl⟩
  · simp only [Nat.pow_eq] at atMost quotientSmall ⊢
    omega

theorem natAbs_num_div_den (number : ℚ) : (number.num.natAbs : ℚ) / number.den = |number| := by
  rw [Nat.cast_natAbs, Int.cast_abs, ← abs_of_pos (Nat.cast_pos.mpr number.den_pos : (0 : ℚ) < _),
    ← abs_div, Rat.num_div_den]

theorem exists_ofRat?_of_nearestBits? {bits : ℕ}
    (areBits : nearestBits? number.num.natAbs number.den = some bits) :
    ∃ value, ofRat? number = some value := by
  unfold ofRat? ofRatio?
  rw [areBits]
  exact ⟨_, rfl⟩

theorem exists_ofRat? (small : |number| < 2 ^ (1000 : ℤ)) :
    ∃ value, ofRat? number = some value := by
  rw [← natAbs_num_div_den] at small
  obtain ⟨bits, areBits⟩ := exists_nearestBits? number.den_pos small
  exact exists_ofRat?_of_nearestBits? areBits

/-- The exact value of a double is rounded to a double. -/
theorem exists_ofRat?_of_toRat? {value : Float} (isValue : toRat? value = some number) :
    ∃ value, ofRat? number = some value := by
  obtain ⟨sign, coefficient, exponent, parts⟩ := exists_isParts isValue
  have size : |number| = coefficient * 2 ^ exponent := by
    rw [parts.isNumber, abs_mul, abs_of_pos (two_zpow_pos exponent)]
    cases sign <;> simp [Sign.apply]
  rcases Nat.eq_zero_or_pos coefficient with rfl | positive
  · refine exists_ofRat? ?_
    rw [size, Nat.cast_zero, zero_mul]
    exact two_zpow_pos 1000
  · have magnitude : IsMagnitude coefficient exponent :=
      ⟨positive, parts.small, parts.least, parts.greatest, parts.full⟩
    have near := near_self coefficient exponent
    rw [← size, ← natAbs_num_div_den] at near
    exact exists_ofRat?_of_nearestBits? (nearestBits?_of_near number.den_pos magnitude near)

/-- No positive whole number is rounded to zero. -/
theorem ofInt_ne_zero {number : ℕ} (positive : 0 < number) : (ofInt number == 0.0) = false := by
  rw [← Bool.not_eq_true, beq_iff]
  rintro ⟨-, -, same⟩
  have zero : rank 0.0 = 0 := by decide
  cases withinRoundings_ofInt positive with
  | finite isValue below above =>
      rename_i exact
      have atLeastOne : (1 : ℚ) ≤ number := by exact_mod_cast positive
      have exactPositive : (0 : ℚ) < exact := by
        by_contra notPositive
        have := mul_nonpos_of_nonpos_of_nonneg (not_lt.mp notPositive) (slack_pow_pos 1).le
        linarith
      have above := (lt_iff_of_toRat isWhole_zero isValue).mpr (by exact_mod_cast exactPositive)
      exact absurd same (lt_iff.mp above).2.2.ne'
  | infinite isInfinite large =>
      rw [isInfinite, rank_infinity.2, zero] at same
      omega

end Conversions

section Roots

variable {coefficient : ℕ} {exponent : ℤ} {value : Float}

/-- The coefficient of a square root has all its bits, and its square is not larger than
the coefficient that the root is taken of. -/
theorem exists_sqrtCore (positive : 0 < coefficient) (least : -1074 ≤ exponent) :
    ∃ root target accuracy,
      sqrtCore Format.binary64 coefficient exponent = (root, target, accuracy) ∧
        2 ^ 52 ≤ root ∧ -1074 ≤ target ∧
        ((root : ℚ) * 2 ^ target) ^ 2 ≤ coefficient * 2 ^ exponent := by
  obtain ⟨target, isTarget⟩ : ∃ target, min (exponent.ediv 2)
      (Format.binary64.targetExponent ((totalExponent coefficient exponent + 1).ediv 2)) =
        target := ⟨_, rfl⟩
  have half : (exponent.ediv 2) = exponent / 2 := rfl
  have halfTotal : (totalExponent coefficient exponent + 1).ediv 2 =
      (coefficient.log2 + 1 + exponent + 1) / 2 := rfl
  obtain ⟨shift, isShift⟩ : ∃ shift : ℕ, exponent = 2 * target + shift :=
    ⟨(exponent - 2 * target).toNat, by omega⟩
  have shiftEq : (exponent - 2 * target).toNat = shift := by omega
  obtain ⟨shifted, isShifted⟩ : ∃ shifted, coefficient * 2 ^ shift = shifted := ⟨_, rfl⟩
  have bits : 2 ^ (coefficient.log2 + shift) ≤ shifted := by
    rw [← isShifted, pow_add]
    exact Nat.mul_le_mul_right _ (Nat.log2_self_le positive.ne')
  have long : 104 ≤ coefficient.log2 + shift := by
    rw [targetExponent_eq] at isTarget
    omega
  have square : Nat.sqrt shifted * Nat.sqrt shifted ≤ shifted := Nat.sqrt_le shifted
  obtain ⟨accuracy, isCore⟩ : ∃ accuracy,
      sqrtCore Format.binary64 coefficient exponent = (Nat.sqrt shifted, target, accuracy) := by
    unfold sqrtCore
    dsimp only
    rw [isTarget, shiftEq, Nat.shiftLeft_eq, isShifted]
    exact ⟨_, rfl⟩
  refine ⟨Nat.sqrt shifted, target, accuracy, isCore, ?_, ?_, ?_⟩
  · rw [Nat.le_sqrt]
    calc 2 ^ 52 * 2 ^ 52 = 2 ^ 104 := by norm_num
      _ ≤ 2 ^ (coefficient.log2 + shift) := Nat.pow_le_pow_right (by norm_num) long
      _ ≤ shifted := bits
  · rw [targetExponent_eq] at isTarget
    omega
  · have doubled : (2 : ℚ) ^ exponent = 2 ^ shift * (2 ^ target) ^ 2 := by
      rw [isShift, zpow_add₀ (by norm_num), zpow_natCast, mul_comm, mul_comm 2 target, zpow_mul]
      norm_cast
    have shiftedCast : (coefficient : ℚ) * 2 ^ shift = shifted := by exact_mod_cast isShifted
    have squareCast : ((Nat.sqrt shifted : ℕ) : ℚ) ^ 2 ≤ coefficient * 2 ^ shift := by
      rw [pow_two, shiftedCast]
      exact_mod_cast square
    rw [doubled, mul_pow, ← mul_assoc]
    exact mul_le_mul_of_nonneg_right squareCast (by positivity)

/-- The coefficient and the exponent of a double stand for less than the square of 2^512. -/
theorem number_le_of_isCanonical {sign : Sign} {positive : 0 < coefficient}
    (canonical : IsCanonical (.finite sign coefficient exponent positive)) :
    (coefficient : ℚ) * 2 ^ exponent ≤ (2 ^ (512 : ℕ)) ^ 2 := by
  obtain ⟨small, -, greatest, -⟩ := canonical
  have coefficientSmall : (coefficient : ℚ) ≤ 2 ^ (53 : ℤ) := by exact_mod_cast small.le
  have exponentSmall : (2 : ℚ) ^ exponent ≤ 2 ^ (971 : ℤ) :=
    zpow_le_zpow_right₀ (by norm_num) greatest
  calc (coefficient : ℚ) * 2 ^ exponent ≤ 2 ^ (53 : ℤ) * 2 ^ (971 : ℤ) :=
        mul_le_mul coefficientSmall exponentSmall (two_zpow_pos _).le (two_zpow_pos _).le
    _ = (2 ^ (512 : ℕ)) ^ 2 := by
        rw [← zpow_add₀ (by norm_num), ← pow_mul]
        exact zpow_natCast 2 1024

/-- Rounding a number up to 2^512 stays far below the largest double. -/
theorem mul_slack_le_largestNumber {number : ℚ} (small : number ≤ 2 ^ (512 : ℕ)) :
    number * slack ^ 1 ≤ largestNumber := by
  have largest : 2 ^ 513 ≤ largestNumber := by decide +kernel
  have slackSmall : slack ^ 1 ≤ 2 := slack_pow_le_two (by norm_num)
  calc number * slack ^ 1 ≤ 2 ^ (512 : ℕ) * 2 :=
        mul_le_mul small slackSmall (slack_pow_pos 1).le (by positivity)
    _ = 2 ^ (513 : ℕ) := (pow_succ _ _).symm
    _ ≤ largestNumber := by exact_mod_cast largest

theorem isFinite_sqrt_positive (positive : 0 < coefficient)
    (canonical : IsCanonical (.finite .positive coefficient exponent positive)) :
    (packed (UnpackedFloat.sqrt Format.binary64
      (.finite .positive coefficient exponent positive))).isFinite = true := by
  obtain ⟨root, target, accuracy, isRoot, full, targetLeast, square⟩ :=
    exists_sqrtCore positive canonical.2.1
  have result : UnpackedFloat.sqrt Format.binary64
      (.finite .positive coefficient exponent positive) =
        roundWithAccuracy Format.binary64 .positive root target accuracy := by
    dsimp only [UnpackedFloat.sqrt]
    rw [isRoot]
  rw [result]
  have lower : (root : ℚ) * 2 ^ target ≤ (root + 1) * 2 ^ target :=
    mul_le_mul_of_nonneg_right (by linarith) (two_zpow_pos target).le
  cases withinRoundings_round accuracy full targetLeast le_rfl lower with
  | finite isValue below above => exact isFinite_of_toRat? isValue
  | infinite isInfinite large =>
      have rootSmall : (root : ℚ) * 2 ^ target ≤ 2 ^ (512 : ℕ) :=
        le_of_sq_le_sq (square.trans (number_le_of_isCanonical canonical)) (by positivity)
      exact absurd large (not_lt.mpr (mul_slack_le_largestNumber rootSmall))

/-- The square root of the magnitude of a double is finite if the double is. -/
theorem isFinite_sqrt_abs (value : Float) : value.abs.sqrt.isFinite = value.isFinite := by
  have canonical := isCanonical_unpacked value
  have root : value.abs.sqrt = packed (UnpackedFloat.sqrt Format.binary64 (unpacked value.abs)) :=
    rfl
  have isFinite : value.isFinite = (unpacked value).isFinite := rfl
  rw [root, isFinite, unpacked_abs]
  cases parts : unpacked value with
  | notANumber => decide +kernel
  | infinity sign => cases sign <;> decide +kernel
  | zero sign => cases sign <;> decide +kernel
  | finite sign coefficient exponent positive =>
      rw [parts] at canonical
      exact isFinite_sqrt_positive positive canonical

end Roots

end Binary64

end ExprCalculus
