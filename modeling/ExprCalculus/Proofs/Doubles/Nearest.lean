import ExprCalculus.Proofs.Doubles.Unpacking
import Mathlib.Data.Int.Log
import Mathlib.Data.Rat.Floor
import Mathlib.Tactic.FieldSimp
import Mathlib.Tactic.Linarith

/-!
# The nearest double

A ratio of whole numbers is rounded to the nearest double by rounding the number
of units that it holds, where the unit is the last place of the double.  This file
shows that every rational number in the interval of a double, half a unit to each
side of it, is rounded to this double.
-/

namespace ExprCalculus

namespace Binary64

section Powers

variable {base numerator denominator : ℕ}

/-- A whole power as a ratio of two powers with natural exponents. -/
theorem zpow_eq_ratio (positive : 0 < base) (exponent : ℤ) :
    (base : ℚ) ^ exponent =
      ((base ^ exponent.toNat : ℕ) : ℚ) / ((base ^ (-exponent).toNat : ℕ) : ℚ) := by
  have nonzero : (base : ℚ) ≠ 0 := Nat.cast_ne_zero.mpr (Nat.ne_of_gt positive)
  have parts : exponent = (exponent.toNat : ℤ) - ((-exponent).toNat : ℤ) := by omega
  conv_lhs => rw [parts]
  rw [zpow_sub₀ nonzero, zpow_natCast, zpow_natCast, Nat.cast_pow, Nat.cast_pow]

/-- A ratio reaches a power if it does after multiplying out. -/
theorem zpow_le_ratio_iff (positive : 0 < base) (denominatorPositive : 0 < denominator)
    (exponent : ℤ) :
    denominator * Nat.pow base exponent.toNat ≤ numerator * Nat.pow base (-exponent).toNat ↔
      (base : ℚ) ^ exponent ≤ (numerator : ℚ) / denominator := by
  have lowerPositive : (0 : ℚ) < ((base ^ (-exponent).toNat : ℕ) : ℚ) :=
    Nat.cast_pos.mpr (Nat.pow_pos positive)
  have denominatorCast : (0 : ℚ) < denominator := Nat.cast_pos.mpr denominatorPositive
  rw [zpow_eq_ratio positive, div_le_div_iff₀ lowerPositive denominatorCast, Nat.pow_eq, Nat.pow_eq,
    ← Nat.cast_mul, ← Nat.cast_mul, Nat.cast_le, Nat.mul_comm denominator]

/-- A ratio is divided by a power by multiplying its numerator and denominator with
natural powers. -/
theorem ratio_div_zpow (positive : 0 < base) (exponent : ℤ) :
    ((numerator * Nat.pow base (-exponent).toNat : ℕ) : ℚ) /
        ((denominator * Nat.pow base exponent.toNat : ℕ) : ℚ) =
      (numerator : ℚ) / denominator / (base : ℚ) ^ exponent := by
  rw [zpow_eq_ratio positive, Nat.pow_eq, Nat.pow_eq, Nat.cast_mul, Nat.cast_mul, div_div_eq_mul_div,
    div_mul_eq_mul_div, div_div]

end Powers

section BinaryExponents

variable {numerator denominator : ℕ}

/-- A positive number lies between the powers of two around its binary logarithm. -/
theorem zpow_log2_bounds {number : ℕ} (positive : 0 < number) :
    ((2 : ℕ) : ℚ) ^ (Nat.log2 number : ℤ) ≤ number ∧
      (number : ℚ) < ((2 : ℕ) : ℚ) ^ ((Nat.log2 number : ℤ) + 1) := by
  constructor
  · rw [zpow_natCast, ← Nat.cast_pow, Nat.cast_le]
    exact Nat.log2_self_le (Nat.ne_of_gt positive)
  · rw [← Nat.cast_succ, zpow_natCast, ← Nat.cast_pow, Nat.cast_lt]
    exact Nat.lt_log2_self

/-- The binary exponent of a ratio is its logarithm to the base two, rounded down. -/
theorem binaryExponent_eq_log (numeratorPositive : 0 < numerator)
    (denominatorPositive : 0 < denominator) :
    binaryExponent numerator denominator = Int.log 2 ((numerator : ℚ) / denominator) := by
  have numeratorCast : (0 : ℚ) < numerator := Nat.cast_pos.mpr numeratorPositive
  have denominatorCast : (0 : ℚ) < denominator := Nat.cast_pos.mpr denominatorPositive
  have ratioPositive : (0 : ℚ) < (numerator : ℚ) / denominator :=
    div_pos numeratorCast denominatorCast
  have two : ((2 : ℕ) : ℚ) ≠ 0 := by norm_num
  obtain ⟨lowNumerator, highNumerator⟩ := zpow_log2_bounds numeratorPositive
  obtain ⟨lowDenominator, highDenominator⟩ := zpow_log2_bounds denominatorPositive
  have below : ((2 : ℕ) : ℚ) ^ ((Nat.log2 numerator : ℤ) - Nat.log2 denominator - 1) ≤
      (numerator : ℚ) / denominator := by
    rw [sub_sub, zpow_sub₀ two]
    exact div_le_div₀ numeratorCast.le lowNumerator denominatorCast highDenominator.le
  have above : (numerator : ℚ) / denominator <
      ((2 : ℕ) : ℚ) ^ ((Nat.log2 numerator : ℤ) - Nat.log2 denominator + 1) := by
    rw [sub_add_eq_add_sub, zpow_sub₀ two]
    exact div_lt_div₀ highNumerator lowDenominator (zpow_nonneg (by norm_num) _)
      (zpow_pos (by norm_num) _)
  rw [Int.zpow_le_iff_le_log (by norm_num) ratioPositive] at below
  rw [Int.lt_zpow_iff_log_lt (by norm_num) ratioPositive] at above
  unfold binaryExponent
  dsimp only
  split
  next reaches =>
    rw [zpow_le_ratio_iff (by norm_num) denominatorPositive,
      Int.zpow_le_iff_le_log (by norm_num) ratioPositive] at reaches
    omega
  next misses =>
    rw [zpow_le_ratio_iff (by norm_num) denominatorPositive,
      Int.zpow_le_iff_le_log (by norm_num) ratioPositive] at misses
    omega

end BinaryExponents

section Rounding

/-- A number is rounded to a whole number: it is at most one half away, and less
unless the whole number is even. -/
structure RoundsTo (number : ℚ) (target : ℕ) : Prop where
  lower : (target : ℚ) - 1 / 2 ≤ number
  upper : number ≤ target + 1 / 2
  tie : target % 2 = 1 → (target : ℚ) - 1 / 2 < number ∧ number < target + 1 / 2

section Ratios

variable {numerator denominator target : ℕ} (positive : 0 < denominator)
include positive

theorem half_le_ratio_iff (half : ℤ) :
    (half : ℚ) / 2 ≤ (numerator : ℚ) / denominator ↔ half * denominator ≤ 2 * numerator := by
  have denominatorCast : (0 : ℚ) < denominator := Nat.cast_pos.mpr positive
  rw [div_le_div_iff₀ two_pos denominatorCast, mul_comm (numerator : ℚ)]
  exact_mod_cast Iff.rfl

theorem ratio_le_half_iff (half : ℤ) :
    (numerator : ℚ) / denominator ≤ (half : ℚ) / 2 ↔ 2 * numerator ≤ half * denominator := by
  have denominatorCast : (0 : ℚ) < denominator := Nat.cast_pos.mpr positive
  rw [div_le_div_iff₀ denominatorCast two_pos, mul_comm (numerator : ℚ)]
  exact_mod_cast Iff.rfl

/-- A ratio is rounded to the only whole number that it may be rounded to. -/
theorem roundRatio_eq (rounds : RoundsTo ((numerator : ℚ) / denominator) target) :
    roundRatio numerator denominator = target := by
  have halfBelow : (target : ℚ) - 1 / 2 = ((2 * target - 1 : ℤ) : ℚ) / 2 := by
    push_cast
    ring
  have halfAbove : (target : ℚ) + 1 / 2 = ((2 * target + 1 : ℤ) : ℚ) / 2 := by
    push_cast
    ring
  obtain ⟨lower, upper, tie⟩ := rounds
  rw [halfBelow] at lower tie
  rw [halfAbove] at upper tie
  rw [half_le_ratio_iff positive] at lower
  rw [ratio_le_half_iff positive] at upper
  rw [← not_le, ← not_le, ratio_le_half_iff positive, half_le_ratio_iff positive, not_le,
    not_le] at tie
  obtain ⟨quotient, isQuotient⟩ : ∃ quotient, numerator / denominator = quotient := ⟨_, rfl⟩
  obtain ⟨remainder, isRemainder⟩ : ∃ remainder, numerator % denominator = remainder := ⟨_, rfl⟩
  have divided : (numerator : ℤ) = denominator * quotient + remainder := by
    rw [← isQuotient, ← isRemainder]
    exact_mod_cast (Nat.div_add_mod numerator denominator).symm
  have small : remainder < denominator := by
    rw [← isRemainder]
    exact Nat.mod_lt _ positive
  have notBelow : quotient ≤ target := by
    by_contra below
    have step : (target : ℤ) + 1 ≤ quotient := by omega
    have scaled := mul_le_mul_of_nonneg_right step (Int.natCast_nonneg denominator)
    nlinarith
  have notAbove : target ≤ quotient + 1 := by
    by_contra above
    have step : (quotient : ℤ) + 2 ≤ target := by omega
    have scaled := mul_le_mul_of_nonneg_right step (Int.natCast_nonneg denominator)
    nlinarith
  unfold roundRatio
  dsimp only
  rw [isQuotient, isRemainder]
  rcases Nat.eq_or_lt_of_le notBelow with rfl | later
  · have atMost : 2 * (remainder : ℤ) ≤ denominator := by nlinarith
    split
    · rfl
    split
    · omega
    · by_cases odd : quotient % 2 = 1
      · have strict := (tie odd).2
        have less : 2 * (remainder : ℤ) < denominator := by nlinarith
        omega
      · omega
  · have isNext : target = quotient + 1 := by omega
    subst isNext
    push_cast at lower tie
    have atLeast : (denominator : ℤ) ≤ 2 * remainder := by nlinarith
    split
    · omega
    split
    · rfl
    · by_cases odd : (quotient + 1) % 2 = 1
      · have strict := (tie odd).1
        have more : (denominator : ℤ) < 2 * remainder := by nlinarith
        omega
      · omega

end Ratios

end Rounding

section Intervals

/-- A coefficient and an exponent that are the magnitude of a double other than zero. -/
structure IsMagnitude (coefficient : ℕ) (exponent : ℤ) : Prop where
  positive : 0 < coefficient
  small : coefficient < 2 ^ 53
  least : -1074 ≤ exponent
  greatest : exponent ≤ 971
  full : 2 ^ 52 ≤ coefficient ∨ exponent = -1074

/-- How many units below a double the numbers that are rounded to it begin.  The unit
below a power of two is half the unit above it. -/
def gapBelow (coefficient : ℕ) (exponent : ℤ) : ℚ :=
  if coefficient = 2 ^ 52 ∧ exponent ≠ -1074 then 1 / 4 else 1 / 2

/-- A number lies in the interval of a double.  The ends belong to the interval if the
coefficient is even. -/
structure Near (coefficient : ℕ) (exponent : ℤ) (number : ℚ) : Prop where
  lower : (coefficient - gapBelow coefficient exponent) * 2 ^ exponent ≤ number
  upper : number ≤ (coefficient + 1 / 2) * 2 ^ exponent
  tie : coefficient % 2 = 1 →
    (coefficient - gapBelow coefficient exponent) * 2 ^ exponent < number ∧
      number < (coefficient + 1 / 2) * 2 ^ exponent

variable {coefficient numerator denominator : ℕ} {exponent : ℤ} {number : ℚ}

theorem gapBelow_bounds (coefficient : ℕ) (exponent : ℤ) :
    0 < gapBelow coefficient exponent ∧ gapBelow coefficient exponent ≤ 1 / 2 := by
  unfold gapBelow
  split <;> norm_num

theorem two_zpow_pos (exponent : ℤ) : (0 : ℚ) < 2 ^ exponent :=
  zpow_pos (by norm_num) exponent

/-- A double lies in its own interval. -/
theorem near_self (coefficient : ℕ) (exponent : ℤ) :
    Near coefficient exponent (coefficient * 2 ^ exponent) := by
  have unit := two_zpow_pos exponent
  obtain ⟨gap, -⟩ := gapBelow_bounds coefficient exponent
  have below : (coefficient - gapBelow coefficient exponent) * 2 ^ exponent <
      coefficient * 2 ^ exponent := mul_lt_mul_of_pos_right (by linarith) unit
  have above : (coefficient : ℚ) * 2 ^ exponent < (coefficient + 1 / 2) * 2 ^ exponent :=
    mul_lt_mul_of_pos_right (by linarith) unit
  exact ⟨below.le, above.le, fun _ => ⟨below, above⟩⟩

namespace Near

variable (magnitude : IsMagnitude coefficient exponent) (near : Near coefficient exponent number)

include magnitude near

theorem half_le : (2 : ℚ) ^ (exponent - 1) ≤ number := by
  have unit := two_zpow_pos exponent
  obtain ⟨-, gap⟩ := gapBelow_bounds coefficient exponent
  have atLeastOne : (1 : ℚ) ≤ coefficient := by exact_mod_cast magnitude.positive
  have scaled : 1 / 2 * (2 : ℚ) ^ exponent ≤
      (coefficient - gapBelow coefficient exponent) * 2 ^ exponent :=
    mul_le_mul_of_nonneg_right (by linarith) unit.le
  rw [zpow_sub_one₀ (by norm_num), mul_comm, inv_eq_one_div]
  exact scaled.trans near.lower

theorem positive : 0 < number :=
  lt_of_lt_of_le (two_zpow_pos _) (near.half_le magnitude)

theorem lt_full : number < 2 ^ (exponent + 53) := by
  have unit := two_zpow_pos exponent
  have small : (coefficient : ℚ) + 1 ≤ 2 ^ 53 := by exact_mod_cast magnitude.small
  have scaled : (coefficient + 1 / 2) * (2 : ℚ) ^ exponent < 2 ^ 53 * 2 ^ exponent :=
    mul_lt_mul_of_pos_right (by linarith) unit
  have whole : (2 : ℚ) ^ (exponent + 53) = 2 ^ 53 * 2 ^ exponent := by
    rw [zpow_add₀ (by norm_num), mul_comm]
    norm_num
  rw [whole]
  exact lt_of_le_of_lt near.upper scaled

omit magnitude in
/-- The interval of a double is rounded to its coefficient, counted in its unit, except
for the part below a power of two. -/
theorem roundsTo (reaches : 2 ^ (exponent + 52) ≤ number ∨ exponent = -1074) :
    RoundsTo (number / 2 ^ exponent) coefficient := by
  have unit := two_zpow_pos exponent
  by_cases half : gapBelow coefficient exponent = 1 / 2
  · obtain ⟨lower, upper, tie⟩ := near
    rw [half] at lower tie
    rw [← le_div_iff₀ unit] at lower
    rw [← div_le_iff₀ unit] at upper
    rw [← lt_div_iff₀ unit, ← div_lt_iff₀ unit] at tie
    exact ⟨lower, upper, tie⟩
  · have boundary : coefficient = 2 ^ 52 ∧ exponent ≠ -1074 := by
      unfold gapBelow at half
      by_contra other
      rw [if_neg other] at half
      exact half rfl
    have atLeast : (coefficient : ℚ) ≤ number / 2 ^ exponent := by
      rw [le_div_iff₀ unit, boundary.1]
      refine le_trans (le_of_eq ?_) (reaches.resolve_right boundary.2)
      rw [zpow_add₀ (by norm_num), mul_comm]
      norm_num
    refine ⟨by linarith, (div_le_iff₀ unit).mpr near.upper, fun odd => ?_⟩
    rw [boundary.1] at odd
    norm_num at odd

/-- The part of the interval below a power of two is rounded to the power, counted in
half the unit. -/
theorem roundsTo_below (below : number < 2 ^ (exponent + 52)) (large : exponent ≠ -1074) :
    coefficient = 2 ^ 52 ∧ RoundsTo (number / 2 ^ (exponent - 1)) (2 ^ 53) := by
  have unit := two_zpow_pos exponent
  have halfUnit := two_zpow_pos (exponent - 1)
  have doubled : (2 : ℚ) ^ exponent = 2 * 2 ^ (exponent - 1) := by
    rw [← zpow_one_add₀ (by norm_num)]
    congr 1
    omega
  have wholePower : (2 : ℚ) ^ (exponent + 52) = 2 ^ 52 * 2 ^ exponent := by
    rw [zpow_add₀ (by norm_num), mul_comm]
    norm_num
  have atLeast : 2 ^ 52 ≤ coefficient := magnitude.full.resolve_right large
  have isBoundary : coefficient = 2 ^ 52 := by
    by_contra other
    have larger : (2 : ℚ) ^ 52 + 1 ≤ coefficient := by
      exact_mod_cast Nat.lt_of_le_of_ne atLeast (Ne.symm other)
    obtain ⟨-, gap⟩ := gapBelow_bounds coefficient exponent
    have scaled : (2 : ℚ) ^ 52 * 2 ^ exponent ≤
        (coefficient - gapBelow coefficient exponent) * 2 ^ exponent :=
      mul_le_mul_of_nonneg_right (by linarith) unit.le
    rw [wholePower] at below
    exact absurd (scaled.trans near.lower) (not_le.mpr below)
  refine ⟨isBoundary, ?_, ?_, fun odd => by norm_num at odd⟩
  · have lower := near.lower
    rw [gapBelow, if_pos ⟨isBoundary, large⟩, isBoundary, doubled] at lower
    rw [le_div_iff₀ halfUnit]
    push_cast at lower ⊢
    linarith
  · rw [div_le_iff₀ halfUnit]
    rw [wholePower, doubled] at below
    push_cast
    linarith

end Near

theorem nearestBits?_of_unit {unit : ℤ} {target : ℕ} (numeratorPositive : 0 < numerator)
    (denominatorPositive : 0 < denominator)
    (isUnit : max (Int.log 2 ((numerator : ℚ) / denominator) - 52) (-1074) = unit)
    (rounds : RoundsTo ((numerator : ℚ) / denominator / 2 ^ unit) target)
    (small : (unit + 1074).toNat * 2 ^ 52 + target < 2047 * 2 ^ 52) :
    nearestBits? numerator denominator = some ((unit + 1074).toNat * 2 ^ 52 + target) := by
  have rounded : roundRatio (numerator * Nat.pow 2 (-unit).toNat)
      (denominator * Nat.pow 2 unit.toNat) = target := by
    refine roundRatio_eq (Nat.mul_pos denominatorPositive (Nat.pow_pos (by norm_num))) ?_
    rw [ratio_div_zpow (by norm_num)]
    exact rounds
  unfold nearestBits?
  rw [if_neg (Nat.ne_of_gt numeratorPositive),
    binaryExponent_eq_log numeratorPositive denominatorPositive, isUnit]
  dsimp only
  rw [rounded, Nat.pow_eq, if_pos small]

/-- Every ratio in the interval of a double is rounded to the bits of the double. -/
theorem nearestBits?_of_near (denominatorPositive : 0 < denominator)
    (magnitude : IsMagnitude coefficient exponent)
    (near : Near coefficient exponent ((numerator : ℚ) / denominator)) :
    nearestBits? numerator denominator =
      some ((exponent + 1074).toNat * 2 ^ 52 + coefficient) := by
  have ratioPositive := near.positive magnitude
  have numeratorPositive : 0 < numerator := by
    rcases Nat.eq_zero_or_pos numerator with rfl | positive
    · norm_num at ratioPositive
    · exact positive
  have least := magnitude.least
  have greatest := magnitude.greatest
  have small := magnitude.small
  have below := near.lt_full magnitude
  have logBelow : Int.log 2 ((numerator : ℚ) / denominator) < exponent + 53 := by
    rw [← Int.lt_zpow_iff_log_lt (by norm_num) ratioPositive]
    exact below
  have logIff (power : ℤ) : (2 : ℚ) ^ power ≤ (numerator : ℚ) / denominator ↔
      power ≤ Int.log 2 ((numerator : ℚ) / denominator) :=
    Int.zpow_le_iff_le_log (by norm_num) ratioPositive
  by_cases reaches : 2 ^ (exponent + 52) ≤ (numerator : ℚ) / denominator ∨ exponent = -1074
  · have logReaches := reaches.imp_left (logIff _).mp
    exact nearestBits?_of_unit numeratorPositive denominatorPositive (by omega)
      (near.roundsTo reaches) (by omega)
  · obtain ⟨misses, large⟩ := not_or.mp reaches
    obtain ⟨isBoundary, rounds⟩ := near.roundsTo_below magnitude (not_le.mp misses) large
    have logMisses := mt (logIff _).mpr misses
    have halfLe := (logIff (exponent + 51)).mp ?_
    · refine (nearestBits?_of_unit numeratorPositive denominatorPositive (by omega) rounds
        (by omega)).trans ?_
      rw [Option.some.injEq]
      omega
    · have bound := rounds.lower
      rw [le_div_iff₀ (two_zpow_pos _)] at bound
      have wholePower : (2 : ℚ) ^ (exponent + 51) = 2 ^ 52 * 2 ^ (exponent - 1) := by
        rw [← zpow_natCast, ← zpow_add₀ (by norm_num)]
        congr 1
        push_cast
        omega
      rw [wholePower]
      refine le_trans (mul_le_mul_of_nonneg_right ?_ (two_zpow_pos _).le) bound
      norm_num

end Intervals

section Doubles

open Float.Model.UnpackedFloat

variable {value : Float} {coefficient : ℕ} {exponent : ℤ}

theorem ofBits_toBits (value : Float) : Float.ofBits value.toBits = value := by
  apply unpacked_injective
  rw [unpacked_ofBits, unpacked_eq_partsOfBits]

theorem magnitude?_cases (isMagnitude : magnitude? value = some (coefficient, exponent)) :
    (coefficient = 0 ∧ exponent = -1074 ∨ IsMagnitude coefficient exponent) ∧
      value.toBits.toNat = (if signBit value then 2 ^ 63 else 0) +
        ((exponent + 1074).toNat * 2 ^ 52 + coefficient) := by
  have small : value.toBits.toNat < 2 ^ 64 := value.toBits.toNat_lt
  unfold magnitude? at isMagnitude
  unfold signBit
  simp only [Nat.pow_eq] at isMagnitude ⊢
  split at isMagnitude
  next => cases isMagnitude
  next notFull =>
    split at isMagnitude
    next subnormal =>
      rw [Option.some.injEq, Prod.mk.injEq] at isMagnitude
      obtain ⟨rfl, rfl⟩ := isMagnitude
      constructor
      · by_cases zero : value.toBits.toNat % 2 ^ 52 = 0
        · exact .inl ⟨zero, rfl⟩
        · exact .inr ⟨by omega, by omega, by omega, by omega, .inr rfl⟩
      · simp only [decide_eq_true_eq]
        split <;> omega
    next normal =>
      rw [Option.some.injEq, Prod.mk.injEq] at isMagnitude
      obtain ⟨rfl, rfl⟩ := isMagnitude
      constructor
      · exact .inr ⟨by omega, by omega, by omega, by omega, .inl (by omega)⟩
      · simp only [decide_eq_true_eq]
        split <;> omega

/-- The magnitude of a double is made of its parts. -/
theorem magnitude?_eq (value : Float) :
    magnitude? value =
      match unpacked value with
      | .infinity _ | .notANumber => none
      | .zero _ => some (0, -1074)
      | .finite _ coefficient exponent _ => some (coefficient, exponent) := by
  rw [unpacked_eq_partsOfBits]
  unfold magnitude? partsOfBits
  simp only [Nat.pow_eq]
  by_cases full : value.toBits.toNat / 2 ^ 52 % 2 ^ 11 = 2047
  · rw [if_pos full, if_pos full]
    by_cases whole : value.toBits.toNat % 2 ^ 52 = 0
    · rw [if_pos whole]
    · rw [if_neg whole]
  rw [if_neg full, if_neg full]
  by_cases subnormal : value.toBits.toNat / 2 ^ 52 % 2 ^ 11 = 0
  · rw [if_pos subnormal, if_pos subnormal]
    by_cases zero : value.toBits.toNat % 2 ^ 52 = 0
    · rw [dif_pos zero, zero]
    · rw [dif_neg zero]
  · rw [if_neg subnormal, if_neg subnormal]

theorem signBit_eq (value : Float) :
    signBit value = decide (signNumber (signPart (unpacked value)) = 1) := by
  have canonical := isCanonical_unpacked value
  have small : magnitudeBits (unpacked value) < 2 ^ 63 := by
    cases parts : unpacked value with
    | finite sign coefficient exponent positive =>
        rw [parts] at canonical
        obtain ⟨small, least, greatest, full⟩ := canonical
        rw [magnitudeBits]
        omega
    | _ =>
        rw [magnitudeBits]
        norm_num
  have sign : signNumber (signPart (unpacked value)) ≤ 1 := by
    cases signPart (unpacked value) <;> decide
  unfold signBit
  rw [toNat_bits_eq, bitsOfParts, Nat.pow_eq, decide_eq_decide]
  omega

/-- Every ratio in the interval of a double is rounded to the double. -/
theorem ofRatio?_of_near {numerator denominator : ℕ} (denominatorPositive : 0 < denominator)
    (isMagnitude : magnitude? value = some (coefficient, exponent)) (positive : 0 < coefficient)
    (near : Near coefficient exponent ((numerator : ℚ) / denominator)) :
    ofRatio? (signBit value) numerator denominator = some value := by
  obtain ⟨cases, bits⟩ := magnitude?_cases isMagnitude
  have magnitude : IsMagnitude coefficient exponent := cases.resolve_left fun zero => by omega
  unfold ofRatio?
  rw [nearestBits?_of_near denominatorPositive magnitude near, Option.map_some, Option.some.injEq]
  have word : UInt64.ofNat (if signBit value = true then
      (exponent + 1074).toNat * 2 ^ 52 + coefficient + Nat.pow 2 63
      else (exponent + 1074).toNat * 2 ^ 52 + coefficient) = value.toBits := by
    apply UInt64.toNat_inj.mp
    have small := value.toBits.toNat_lt
    rw [UInt64.toNat_ofNat', bits, Nat.pow_eq]
    rw [bits] at small
    split
    · rw [if_pos ‹_›] at small
      rw [Nat.mod_eq_of_lt (by omega), Nat.add_comm]
    · rw [if_neg ‹_›] at small
      rw [Nat.mod_eq_of_lt (by omega), Nat.zero_add]
  rw [word]
  exact ofBits_toBits value

theorem ratio_scaledByTwo (coefficient : ℕ) (exponent : ℤ) :
    ((scaledByTwo coefficient exponent).1 : ℚ) / (scaledByTwo coefficient exponent).2 =
      coefficient * 2 ^ exponent := by
  have power := @zpow_eq_ratio 2 (by norm_num) exponent
  unfold scaledByTwo
  dsimp only
  rw [Nat.pow_eq, Nat.pow_eq, Nat.cast_mul, mul_div_assoc, ← power]
  rfl

theorem toRat?_eq_none : toRat? value = none ↔ value.isFinite = false := by
  have isMagnitude := magnitude?_eq value
  change _ ↔ (unpacked value).isFinite = false
  unfold toRat?
  rw [isMagnitude, Option.map_eq_none_iff]
  cases unpacked value <;> simp [Float.Model.UnpackedFloat.isFinite]

/-- A double with an exact value is finite. -/
theorem isFinite_of_toRat? {number : ℚ} (isValue : toRat? value = some number) :
    value.isFinite = true := by
  rw [← Bool.not_eq_false, ← toRat?_eq_none, isValue]
  nofun

/-- The exact value of a finite double. -/
theorem toRat?_eq {sign : Sign} {positive : 0 < coefficient}
    (parts : unpacked value = .finite sign coefficient exponent positive) :
    toRat? value = some (if signNumber sign = 1 then -((coefficient : ℚ) * 2 ^ exponent)
      else (coefficient : ℚ) * 2 ^ exponent) := by
  have ratio := ratio_scaledByTwo coefficient exponent
  have isSign := signBit_eq value
  have isMagnitude := magnitude?_eq value
  rw [parts] at isSign isMagnitude
  unfold toRat?
  rw [isMagnitude, Option.map_some, isSign]
  dsimp only
  rw [Option.some.injEq]
  cases sign with
  | negative =>
      change mkRat (-((scaledByTwo coefficient exponent).1 : ℤ)) _ =
        -((coefficient : ℚ) * 2 ^ exponent)
      rw [Rat.mkRat_eq_div, Int.cast_neg, neg_div, Int.cast_natCast, ratio]
  | positive =>
      change mkRat ((scaledByTwo coefficient exponent).1 : ℤ) _ = (coefficient : ℚ) * 2 ^ exponent
      rw [Rat.mkRat_eq_div, Int.cast_natCast, ratio]

end Doubles

end Binary64

end ExprCalculus
