import ExprCalculus.Decimal.Basic
import ExprCalculus.Proofs.Doubles.Nearest

/-!
# Values of decimals

The value of a decimal is a rational number.  A decimal in the interval of a double
is read as this double, and the order of a ratio is the exponent of a power of ten
that the ratio reaches.
-/

namespace ExprCalculus

namespace Decimal

open Binary64

def value (decimal : Decimal) : ℚ :=
  decimal.coefficient * 10 ^ decimal.exponent

theorem ten_zpow_pos (exponent : ℤ) : (0 : ℚ) < 10 ^ exponent :=
  zpow_pos (by norm_num) exponent

theorem toRatio_positive (decimal : Decimal) : 0 < decimal.toRatio.2 :=
  Nat.pow_pos (by norm_num)

theorem toRatio_eq_value (decimal : Decimal) :
    (decimal.toRatio.1 : ℚ) / decimal.toRatio.2 = decimal.value := by
  have power := @zpow_eq_ratio 10 (by norm_num) decimal.exponent
  unfold toRatio value
  dsimp only
  rw [Nat.pow_eq, Nat.pow_eq, Nat.cast_mul, mul_div_assoc, ← power]
  rfl

/-- Dropping zeros at the end of the coefficient keeps the value. -/
theorem value_normalize (decimal : Decimal) : decimal.normalize.value = decimal.value := by
  fun_induction normalize decimal with
  | case1 decimal ends ih =>
      rw [ih]
      have tenfold : (decimal.coefficient : ℚ) = (decimal.coefficient / 10 : ℕ) * 10 := by
        exact_mod_cast (Nat.div_mul_cancel (Nat.dvd_of_mod_eq_zero ends.2)).symm
      unfold value
      dsimp only
      rw [zpow_add_one₀ (by norm_num), tenfold, mul_assoc, mul_comm (10 ^ decimal.exponent)]
  | case2 decimal last => rfl

section Digits

/-- A whole number has as many digits as the powers of ten around it say. -/
theorem digitCount_bounds {number : ℕ} (positive : 0 < number) :
    10 ^ (digitCount number - 1) ≤ number ∧ number < 10 ^ digitCount number := by
  have some : 0 < digitCount number := Nat.length_toDigits_pos
  constructor
  · by_contra below
    by_cases single : digitCount number = 1
    · rw [single] at below
      omega
    · have shorter : digitCount number ≤ digitCount number - 1 :=
        (Nat.length_toDigits_le_iff (by norm_num) (by omega)).mpr (not_le.mp below)
      omega
  · exact (Nat.length_toDigits_le_iff (by norm_num) some).mp le_rfl

/-- The value of a decimal lies below the power of ten with as many digits before the
point, and reaches the power before that. -/
theorem value_bounds {decimal : Decimal} (positive : 0 < decimal.coefficient) :
    (10 : ℚ) ^ (decimal.exponent + digitCount decimal.coefficient - 1) ≤ decimal.value ∧
      decimal.value < 10 ^ (decimal.exponent + digitCount decimal.coefficient) := by
  obtain ⟨lower, upper⟩ := digitCount_bounds positive
  have some : 0 < digitCount decimal.coefficient := Nat.length_toDigits_pos
  have scale := ten_zpow_pos decimal.exponent
  constructor
  · have parts : decimal.exponent + digitCount decimal.coefficient - 1 =
        ((digitCount decimal.coefficient - 1 : ℕ) : ℤ) + decimal.exponent := by omega
    rw [parts, zpow_add₀ (by norm_num), zpow_natCast]
    refine mul_le_mul_of_nonneg_right ?_ scale.le
    exact_mod_cast lower
  · rw [add_comm, zpow_add₀ (by norm_num), zpow_natCast]
    refine mul_lt_mul_of_pos_right ?_ scale
    exact_mod_cast upper

end Digits

section Reading

theorem two_pow_le_ten_pow : 2 ^ 1075 ≤ 10 ^ 400 := by
  decide +kernel

variable {double : Float} {coefficient : ℕ} {exponent : ℤ} {decimal : Decimal}

/-- A decimal in the interval of a double is read as the double. -/
theorem toFloat_of_near (isMagnitude : magnitude? double = some (coefficient, exponent))
    (positive : 0 < coefficient) (near : Near coefficient exponent decimal.value) :
    decimal.toFloat (signBit double) = double := by
  have magnitude : IsMagnitude coefficient exponent :=
    (magnitude?_cases isMagnitude).1.resolve_left fun zero => by omega
  have least := magnitude.least
  have greatest := magnitude.greatest
  have valuePositive := near.positive magnitude
  have nonzero : decimal.coefficient ≠ 0 := by
    intro zero
    rw [value, zero, Nat.cast_zero, zero_mul] at valuePositive
    exact lt_irrefl _ valuePositive
  obtain ⟨lower, upper⟩ := value_bounds (Nat.pos_of_ne_zero nonzero)
  have notSmall : ¬ decimal.exponent + digitCount decimal.coefficient < -400 := by
    intro small
    have tiny : (10 : ℚ) ^ (decimal.exponent + digitCount decimal.coefficient) ≤ 10 ^ (-400 : ℤ) :=
      zpow_le_zpow_right₀ (by norm_num) small.le
    have smallest : (2 : ℚ) ^ (-1075 : ℤ) ≤ 2 ^ (exponent - 1) :=
      zpow_le_zpow_right₀ (by norm_num) (by omega)
    have apart : (10 : ℚ) ^ (-400 : ℤ) ≤ 2 ^ (-1075 : ℤ) := by
      rw [zpow_neg, zpow_neg]
      refine inv_anti₀ (two_zpow_pos _) ?_
      exact_mod_cast two_pow_le_ten_pow
    exact absurd (tiny.trans (apart.trans (smallest.trans (near.half_le magnitude))))
      (not_le.mpr upper)
  have notLarge : ¬ 400 < decimal.exponent + digitCount decimal.coefficient := by
    intro large
    have huge : (10 : ℚ) ^ (400 : ℤ) ≤
        10 ^ (decimal.exponent + digitCount decimal.coefficient - 1) :=
      zpow_le_zpow_right₀ (by norm_num) (by omega)
    have largest : (2 : ℚ) ^ (exponent + 53) ≤ 2 ^ (1075 : ℤ) :=
      zpow_le_zpow_right₀ (by norm_num) (by omega)
    have apart : (2 : ℚ) ^ (1075 : ℤ) ≤ 10 ^ (400 : ℤ) := by exact_mod_cast two_pow_le_ten_pow
    exact absurd (huge.trans lower)
      (not_le.mpr (lt_of_lt_of_le (near.lt_full magnitude) (largest.trans apart)))
  have rounded : ofRatio? (signBit double) decimal.toRatio.1 decimal.toRatio.2 = some double := by
    refine ofRatio?_of_near (toRatio_positive decimal) isMagnitude positive ?_
    rw [toRatio_eq_value]
    exact near
  unfold toFloat
  dsimp only
  rw [if_neg (by simp [nonzero, notSmall]), if_neg notLarge, rounded]
  rfl

end Reading

section Orders

variable {numerator denominator : ℕ}

/-- One power of ten below the guess of the order lies below the power of two that the
guess was made from. -/
theorem zpow_guess_le {power guess : ℤ} (least : -1100 ≤ power) (greatest : power ≤ 1100)
    (isGuess : guess = (power * 30103).fdiv 100000) : (10 : ℚ) ^ (guess - 1) ≤ 2 ^ power := by
  rw [Int.fdiv_eq_ediv_of_nonneg _ (by norm_num)] at isGuess
  have positive := two_zpow_pos power
  have tenPositive := ten_zpow_pos (guess - 1)
  rcases lt_or_ge (guess - 1) 0 with negative | nonnegative
  · have bases : ((2 : ℚ) ^ 93) ≤ 10 ^ 28 := by norm_num
    have compared : ((10 : ℚ) ^ (guess - 1)) ^ 28 ≤ (2 ^ power) ^ 28 :=
      calc ((10 : ℚ) ^ (guess - 1)) ^ 28 = (10 ^ 28) ^ (guess - 1) := by
            rw [← zpow_natCast, ← zpow_natCast, zpow_comm]
        _ ≤ (2 ^ 93) ^ (guess - 1) := by
            have flipped := zpow_le_zpow_left₀ (neg_nonneg.mpr negative.le) (by norm_num) bases
            rw [zpow_neg, zpow_neg] at flipped
            exact (inv_le_inv₀ (zpow_pos (by norm_num) _) (zpow_pos (by norm_num) _)).mp flipped
        _ = 2 ^ (93 * (guess - 1)) := by rw [zpow_mul]; norm_num
        _ ≤ 2 ^ (power * 28) := zpow_le_zpow_right₀ (by norm_num) (by omega)
        _ = (2 ^ power) ^ 28 := by rw [zpow_mul]; norm_num
    exact (pow_le_pow_iff_left₀ tenPositive.le positive.le (by norm_num)).mp compared
  · have bases : ((10 : ℚ) ^ 31) ≤ 2 ^ 103 := by norm_num
    have compared : ((10 : ℚ) ^ (guess - 1)) ^ 31 ≤ (2 ^ power) ^ 31 :=
      calc ((10 : ℚ) ^ (guess - 1)) ^ 31 = (10 ^ 31) ^ (guess - 1) := by
            rw [← zpow_natCast, ← zpow_natCast, zpow_comm]
        _ ≤ (2 ^ 103) ^ (guess - 1) := zpow_le_zpow_left₀ nonnegative (by norm_num) bases
        _ = 2 ^ (103 * (guess - 1)) := by rw [zpow_mul]; norm_num
        _ ≤ 2 ^ (power * 31) := zpow_le_zpow_right₀ (by norm_num) (by omega)
        _ = (2 ^ power) ^ 31 := by rw [zpow_mul]; norm_num
    exact (pow_le_pow_iff_left₀ tenPositive.le positive.le (by norm_num)).mp compared

/-- A ratio reaches the power of ten with its order as the exponent. -/
theorem zpow_order_le (numeratorPositive : 0 < numerator) (denominatorPositive : 0 < denominator)
    (least : -1100 ≤ Int.log 2 ((numerator : ℚ) / denominator))
    (greatest : Int.log 2 ((numerator : ℚ) / denominator) ≤ 1100) :
    (10 : ℚ) ^ order numerator denominator ≤ (numerator : ℚ) / denominator := by
  have ratioPositive : (0 : ℚ) < (numerator : ℚ) / denominator :=
    div_pos (Nat.cast_pos.mpr numeratorPositive) (Nat.cast_pos.mpr denominatorPositive)
  have reachesTwo : ((2 : ℕ) : ℚ) ^ Int.log 2 ((numerator : ℚ) / denominator) ≤
      (numerator : ℚ) / denominator := Int.zpow_log_le_self (by norm_num) ratioPositive
  unfold order
  rw [binaryExponent_eq_log numeratorPositive denominatorPositive]
  dsimp only
  split
  next above => exact (zpow_le_ratio_iff (by norm_num) denominatorPositive _).mp above
  split
  next reaches => exact (zpow_le_ratio_iff (by norm_num) denominatorPositive _).mp reaches
  next => exact (zpow_guess_le least greatest rfl).trans reachesTwo

end Orders

end Decimal

end ExprCalculus
