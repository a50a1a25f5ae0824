import ExprCalculus.Polynomial.Approximation
import Mathlib.Algebra.Order.Field.Rat
import Mathlib.Algebra.Order.Floor.Defs
import Mathlib.Data.Rat.Floor
import Mathlib.Tactic.Linarith

/-!
# How far an approximation is off

The convergents of a number have the same whole part as the number, so none of them is
further away than one.  The fraction that a number is approximated by is not further away
than the last convergent.
-/

namespace ExprCalculus

namespace Approximation

/-- The fractional parts of two successive convergents lie between zero and one, up to the
first step, after which the earlier denominator is still zero. -/
structure Convergents.HasWhole (whole : ℤ) (convergents : Convergents) : Prop where
  denominator_pos : 0 < convergents.denominator
  earlierDenominator_nonneg : 0 ≤ convergents.earlierDenominator
  lower : whole * convergents.denominator ≤ convergents.numerator
  earlierLower :
    whole * convergents.earlierDenominator ≤ convergents.earlierNumerator
  upper : convergents.numerator ≤ (whole + 1) * convergents.denominator
  sumUpper : convergents.earlierNumerator + convergents.numerator ≤
    (whole + 1) * (convergents.earlierDenominator + convergents.denominator)

theorem Convergents.hasWhole_first (whole : ℤ) :
    (Convergents.start.advance whole).HasWhole whole := by
  constructor <;> simp only [Convergents.start, Convergents.advance] <;> omega

theorem Convergents.HasWhole.advance {whole : ℤ} {convergents : Convergents}
    (hasWhole : convergents.HasWhole whole) {quotient : ℤ} (positive : 1 ≤ quotient) :
    (convergents.advance quotient).HasWhole whole := by
  obtain ⟨denominator_pos, earlierDenominator_nonneg, lower, earlierLower, upper, sumUpper⟩ :=
    hasWhole
  have again : 0 ≤ quotient - 1 := by omega
  have moreLower := mul_le_mul_of_nonneg_left lower (by omega : 0 ≤ quotient)
  have moreUpper := mul_le_mul_of_nonneg_left upper again
  have moreDenominator := mul_le_mul_of_nonneg_left denominator_pos.le again
  constructor <;> simp only [Convergents.advance] <;> linarith

/-- Following the continued fraction of a number below one keeps the whole part. -/
theorem hasWhole_follow {whole : ℤ} (bound : ℤ) {convergents : Convergents}
    (hasWhole : convergents.HasWhole whole) (numerator denominator : ℕ)
    (proper : denominator ≤ numerator) :
    (follow bound convergents numerator denominator).HasWhole whole := by
  induction denominator using Nat.strongRecOn generalizing convergents numerator with
  | ind denominator ih =>
      unfold follow
      split
      · exact hasWhole
      next nonzero =>
        dsimp only
        split
        · exact hasWhole
        · have positive : 0 < denominator := Nat.pos_of_ne_zero nonzero
          have remainder : ((numerator : ℤ) % (denominator : ℤ)).toNat = numerator % denominator :=
            by omega
          rw [remainder]
          have quotient : 1 ≤ (numerator : ℤ) / denominator := by
            rw [Int.le_ediv_iff_mul_le (by exact_mod_cast positive), one_mul]
            exact_mod_cast proper
          exact ih _ (Nat.mod_lt _ positive) (hasWhole.advance quotient) denominator
            (Nat.mod_lt _ positive).le

/-- The last convergent with a denominator within the bound. -/
theorem hasWhole_last {bound : ℕ} (positive : 0 < bound) (number : ℚ) :
    (follow bound .start number.num number.den).HasWhole ⌊number⌋ := by
  have denominatorPositive := number.den_pos
  unfold follow
  rw [dif_neg number.den_ne_zero, Rat.floor_def']
  dsimp only
  have first : (Convergents.start.advance (number.num / number.den)).denominator = 1 := by
    simp [Convergents.start, Convergents.advance]
  rw [if_neg (by rw [first]; omega)]
  have remainder := Int.emod_lt_of_pos number.num (by exact_mod_cast denominatorPositive :
    (0 : ℤ) < number.den)
  exact hasWhole_follow bound (Convergents.hasWhole_first _) number.den _ (by omega)

theorem magnitude_eq_abs (number : ℚ) : magnitude number = |number| := by
  unfold magnitude
  split
  · exact (abs_of_neg ‹_›).symm
  · exact (abs_of_nonneg (not_lt.mp ‹_›)).symm

/-- A number is approximated with an error of at most one. -/
theorem abs_nearest_sub_le {bound : ℕ} (positive : 0 < bound) (number : ℚ) :
    |nearest bound number - number| ≤ 1 := by
  unfold nearest
  split
  · simp
  have last := hasWhole_last positive number
  generalize follow bound .start number.num number.den = convergents at last ⊢
  have convergentNear :
      |mkRat convergents.numerator convergents.denominator.toNat - number| ≤ 1 := by
    have denominatorPositive : (0 : ℚ) < convergents.denominator := by
      exact_mod_cast last.denominator_pos
    have isRatio : mkRat convergents.numerator convergents.denominator.toNat =
        (convergents.numerator : ℚ) / convergents.denominator := by
      rw [Rat.mkRat_eq_div, ← Int.cast_natCast, Int.toNat_of_nonneg last.denominator_pos.le]
    have lower : (⌊number⌋ : ℚ) ≤ (convergents.numerator : ℚ) / convergents.denominator := by
      rw [le_div_iff₀ denominatorPositive]
      exact_mod_cast last.lower
    have upper : (convergents.numerator : ℚ) / convergents.denominator ≤ ⌊number⌋ + 1 := by
      rw [div_le_iff₀ denominatorPositive]
      exact_mod_cast last.upper
    rw [isRatio, abs_le]
    have floorLower := Int.floor_le number
    have floorUpper := Int.lt_floor_add_one number
    constructor <;> linarith
  dsimp only
  split
  · exact convergentNear
  next further =>
    rw [magnitude_eq_abs, magnitude_eq_abs] at further
    exact (not_le.mp further).le.trans convergentNear

end Approximation

end ExprCalculus
