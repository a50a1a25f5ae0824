import ExprCalculus.Proofs.Doubles.Order

/-!
# Rounding of products and sums

Rounding keeps a number that is the value of a double, however far its coefficient
was shifted, so multiplying by one changes nothing.  A number that is not below the
smallest normal double is rounded to a coefficient of 53 bits, which may carry into
the exponent.
-/

namespace ExprCalculus

namespace Binary64

open Float.Model Float.Model.UnpackedFloat

section Shifting

theorem shiftRight_succ (extended : ExtendedMantissa) (amount : Nat) :
    extended >>> (amount + 1) = (extended >>> amount).shiftRightOne :=
  rfl

/-- The coefficient after a shift. -/
theorem mantissa_shiftRight (extended : ExtendedMantissa) (amount : Nat) :
    (extended >>> amount).mantissa = extended.mantissa / 2 ^ amount := by
  induction amount with
  | zero => exact (Nat.div_one _).symm
  | succ amount ih =>
      rw [shiftRight_succ, ExtendedMantissa.shiftRightOne, ih, Nat.div_div_eq_div_mul, pow_succ]

/-- Shifting out zeros loses nothing. -/
theorem exact_shiftRight (coefficient amount : Nat) :
    (⟨coefficient * 2 ^ amount, false, false⟩ : ExtendedMantissa) >>> amount =
      ⟨coefficient, false, false⟩ := by
  induction amount generalizing coefficient with
  | zero =>
      rw [pow_zero, mul_one]
      rfl
  | succ amount ih =>
      rw [shiftRight_succ, pow_succ', ← mul_assoc, ih, ExtendedMantissa.shiftRightOne]
      simp

theorem roundedMantissa_bounds (extended : ExtendedMantissa) :
    extended.mantissa ≤ extended.roundedMantissa ∧
      extended.roundedMantissa ≤ extended.mantissa + 1 := by
  obtain ⟨coefficient, round, sticky⟩ := extended
  cases round <;> cases sticky <;>
    simp only [ExtendedMantissa.roundedMantissa, ExtendedMantissa.accuracy,
      Accuracy.roundToNearestEven] <;>
    omega

end Shifting

section Targets

variable {coefficient : Nat} {exponent : Int}

theorem targetExponent_eq (total : Int) :
    Format.binary64.targetExponent total = max (total - 53) (-1074) :=
  rfl

/-- The exponent of a double is the one that rounding aims at. -/
theorem targetExponent_of_canonical {sign : Sign} {positive : 0 < coefficient}
    (canonical : IsCanonical (.finite sign coefficient exponent positive)) :
    Format.binary64.targetExponent (totalExponent coefficient exponent) = exponent := by
  obtain ⟨small, least, -, full⟩ := canonical
  rw [targetExponent_eq, totalExponent]
  rcases full with normal | smallest
  · have log : coefficient.log2 = 52 := (Nat.log2_eq_iff (by omega)).mpr ⟨normal, small⟩
    omega
  · have log : coefficient.log2 < 53 := (Nat.log2_lt (by omega)).mpr small
    omega

theorem log2_mul_two_pow (positive : 0 < coefficient) (amount : Nat) :
    (coefficient * 2 ^ amount).log2 = coefficient.log2 + amount := by
  have nonzero : coefficient ≠ 0 := by omega
  rw [Nat.log2_eq_iff (Nat.mul_ne_zero nonzero (Nat.two_pow_pos amount).ne')]
  have lower := Nat.log2_self_le nonzero
  have upper := Nat.lt_log2_self (n := coefficient)
  constructor
  · rw [pow_add]
    exact Nat.mul_le_mul_right _ lower
  · rw [show coefficient.log2 + amount + 1 = coefficient.log2 + 1 + amount by omega, pow_add]
    exact Nat.mul_lt_mul_of_pos_right upper (Nat.two_pow_pos amount)

theorem totalExponent_mul_two_pow (positive : 0 < coefficient) (amount : Nat) :
    totalExponent (coefficient * 2 ^ amount) (exponent - amount) =
      totalExponent coefficient exponent := by
  rw [totalExponent, totalExponent, log2_mul_two_pow positive]
  push_cast
  ring

/-- Rounding shifts to the target exponent, rounds, and shifts once more in case
the rounded coefficient has become too long. -/
theorem roundWithAccuracy_of_shifts {sign : Sign} {accuracy : Accuracy}
    {shifted final : ExtendedMantissa} {middle last : Int}
    (first : shiftToTargetExponent Format.binary64 coefficient exponent accuracy =
      (shifted, middle))
    (second : shiftToTargetExponent Format.binary64 shifted.roundedMantissa middle .exact =
      (final, last))
    (positive : 0 < final.mantissa) :
    roundWithAccuracy Format.binary64 sign coefficient exponent accuracy =
      .finite sign final.mantissa last positive := by
  unfold roundWithAccuracy
  simp only [first, second]
  exact dif_neg (by omega)

theorem shiftToTargetExponent_eq (coefficient : Nat) (exponent : Int) {target : Int}
    (aim : Format.binary64.targetExponent (totalExponent coefficient exponent) = target) :
    shiftToTargetExponent Format.binary64 coefficient exponent .exact =
      ((⟨coefficient, false, false⟩ : ExtendedMantissa) >>> (target - exponent).toNat,
        exponent + (target - exponent).toNat) := by
  rw [← aim]
  rfl

/-- Rounding keeps the value of a double, however far it was shifted. -/
theorem roundWithAccuracy_exact {sign : Sign} {positive : 0 < coefficient}
    (canonical : IsCanonical (.finite sign coefficient exponent positive)) (amount : Nat) :
    roundWithAccuracy Format.binary64 sign (coefficient * 2 ^ amount) (exponent - amount) .exact =
      .finite sign coefficient exponent positive := by
  have target := targetExponent_of_canonical canonical
  have first : shiftToTargetExponent Format.binary64 (coefficient * 2 ^ amount)
      (exponent - amount) .exact = (⟨coefficient, false, false⟩, exponent) := by
    have aim := target
    rw [← totalExponent_mul_two_pow positive amount] at aim
    have shift : (exponent - (exponent - amount)).toNat = amount := by omega
    rw [shiftToTargetExponent_eq _ _ aim, shift, exact_shiftRight, Int.sub_add_cancel]
  have second : shiftToTargetExponent Format.binary64 coefficient exponent .exact =
      (⟨coefficient, false, false⟩, exponent) := by
    rw [shiftToTargetExponent_eq _ _ target, Int.sub_self]
    exact Prod.ext rfl (Int.add_zero exponent)
  exact roundWithAccuracy_of_shifts first second positive

theorem mantissa_ofMantissaAndAccuracy (coefficient : Nat) (accuracy : Accuracy) :
    (ExtendedMantissa.ofMantissaAndAccuracy coefficient accuracy).mantissa = coefficient := by
  match accuracy with
  | .exact | .inexact .lt | .inexact .eq | .inexact .gt => rfl

/-- A coefficient of 53 bits or more, shifted and rounded, has 53 bits or is the next
power of two, and it is one of the two whole numbers around the shifted coefficient. -/
theorem roundedMantissa_shift {long shift : Nat} (accuracy : Accuracy)
    (bits : long.log2 = 52 + shift) (positive : 0 < long) {rounded : Nat}
    (isRounded : (ExtendedMantissa.ofMantissaAndAccuracy long accuracy >>> shift).roundedMantissa =
      rounded) :
    2 ^ 52 ≤ rounded ∧ rounded ≤ 2 ^ 53 ∧
      long / 2 ^ shift ≤ rounded ∧ rounded ≤ long / 2 ^ shift + 1 := by
  have bounds :=
    roundedMantissa_bounds (ExtendedMantissa.ofMantissaAndAccuracy long accuracy >>> shift)
  rw [mantissa_shiftRight, mantissa_ofMantissaAndAccuracy, isRounded] at bounds
  have lower : 2 ^ 52 ≤ long / 2 ^ shift := by
    rw [Nat.le_div_iff_mul_le (Nat.two_pow_pos shift), ← pow_add, ← bits]
    exact Nat.log2_self_le (by omega)
  have upper : long / 2 ^ shift < 2 ^ 53 := by
    rw [Nat.div_lt_iff_lt_mul (Nat.two_pow_pos shift), ← pow_add,
      show 53 + shift = long.log2 + 1 by omega]
    exact Nat.lt_log2_self
  omega

/-- Rounding a coefficient of 53 bits or more gives all 53 bits.  Counted in the unit of the
last of them, the result is one of the two whole numbers around the coefficient. -/
theorem exists_roundWithAccuracy_normal (sign : Sign) (accuracy : Accuracy)
    (positive : 0 < coefficient) {total : Int}
    (isTotal : totalExponent coefficient exponent = total) (normal : -1021 ≤ total)
    (long : exponent ≤ total - 53) :
    ∃ rounded newExponent newPositive,
      roundWithAccuracy Format.binary64 sign coefficient exponent accuracy =
        .finite sign rounded newExponent newPositive ∧
      2 ^ 52 ≤ rounded ∧ rounded < 2 ^ 53 ∧ total - 53 ≤ newExponent ∧
      coefficient / 2 ^ (total - 53 - exponent).toNat ≤
        rounded * 2 ^ (newExponent - (total - 53)).toNat ∧
      rounded * 2 ^ (newExponent - (total - 53)).toNat ≤
        coefficient / 2 ^ (total - 53 - exponent).toNat + 1 := by
  have target : Format.binary64.targetExponent (totalExponent coefficient exponent) =
      total - 53 := by
    rw [isTotal, targetExponent_eq]
    omega
  obtain ⟨shift, isShift⟩ : ∃ shift, (total - 53 - exponent).toNat = shift := ⟨_, rfl⟩
  have bits : coefficient.log2 = 52 + shift := by
    rw [totalExponent] at isTotal
    omega
  have first : shiftToTargetExponent Format.binary64 coefficient exponent accuracy =
      (ExtendedMantissa.ofMantissaAndAccuracy coefficient accuracy >>> shift, total - 53) := by
    have shifted : exponent + shift = total - 53 := by omega
    rw [← isShift, ← target] at shifted ⊢
    exact Prod.ext rfl shifted
  rw [isShift]
  obtain ⟨rounded, isRounded⟩ : ∃ rounded,
      (ExtendedMantissa.ofMantissaAndAccuracy coefficient accuracy >>> shift).roundedMantissa =
        rounded := ⟨_, rfl⟩
  obtain ⟨lower, upper, atLeast, atMost⟩ := roundedMantissa_shift accuracy bits positive isRounded
  by_cases carries : rounded = 2 ^ 53
  · have aim : Format.binary64.targetExponent (totalExponent rounded (total - 53)) =
        total - 52 := by
      rw [targetExponent_eq, totalExponent, carries, Nat.log2_two_pow]
      omega
    have second := shiftToTargetExponent_eq rounded (total - 53) aim
    rw [show (total - 52 - (total - 53)).toNat = 1 by omega, carries,
      show (2 ^ 53 : Nat) = 2 ^ 52 * 2 ^ 1 by rfl, exact_shiftRight, ← pow_add,
      show (2 ^ (52 + 1) : Nat) = 2 ^ 53 by rfl, ← carries, ← isRounded] at second
    have carried : 2 ^ 52 * 2 ^ (total - 53 + (1 : Nat) - (total - 53)).toNat = rounded := by
      rw [carries, show (total - 53 + (1 : Nat) - (total - 53)).toNat = 1 by omega]
      rfl
    exact ⟨2 ^ 52, _, by decide, roundWithAccuracy_of_shifts first second (by decide),
      le_refl _, by decide, by omega, carried.symm ▸ atLeast, carried.symm ▸ atMost⟩
  · have small : rounded < 2 ^ 53 := lt_of_le_of_ne upper carries
    have aim : Format.binary64.targetExponent (totalExponent rounded (total - 53)) =
        total - 53 := by
      have log : rounded.log2 = 52 := (Nat.log2_eq_iff (by omega)).mpr ⟨lower, small⟩
      rw [targetExponent_eq, totalExponent, log]
      omega
    have second : shiftToTargetExponent Format.binary64 rounded (total - 53) .exact =
        (⟨rounded, false, false⟩, total - 53) := by
      rw [shiftToTargetExponent_eq _ _ aim, Int.sub_self]
      exact Prod.ext rfl (Int.add_zero _)
    have roundedPositive : 0 < rounded := by omega
    have itself : rounded * 2 ^ (total - 53 - (total - 53)).toNat = rounded := by
      rw [Int.sub_self, Int.toNat_zero, pow_zero, mul_one]
    refine ⟨rounded, total - 53, roundedPositive, ?_, lower, small, le_refl _,
      itself.symm ▸ atLeast, itself.symm ▸ atMost⟩
    subst isRounded
    exact roundWithAccuracy_of_shifts first second roundedPositive

/-- A number that is not below the smallest normal double is rounded to all 53
bits, and its exponent does not fall below that of the number. -/
theorem exists_round_normal (sign : Sign) (positive : 0 < coefficient)
    (normal : -1021 ≤ totalExponent coefficient exponent) :
    ∃ rounded newExponent newPositive,
      round Format.binary64 sign coefficient exponent =
        .finite sign rounded newExponent newPositive ∧
      2 ^ 52 ≤ rounded ∧ rounded < 2 ^ 53 ∧
      totalExponent coefficient exponent - 53 ≤ newExponent := by
  obtain ⟨total, isTotal⟩ : ∃ total, totalExponent coefficient exponent = total := ⟨_, rfl⟩
  have target : Format.binary64.targetExponent total = total - 53 := by
    rw [targetExponent_eq]
    omega
  obtain ⟨amount, isAmount⟩ : ∃ amount, (exponent - (total - 53)).toNat = amount := ⟨_, rfl⟩
  have lengthened : round Format.binary64 sign coefficient exponent =
      roundWithAccuracy Format.binary64 sign (coefficient * 2 ^ amount) (exponent - amount)
        .exact := by
    unfold UnpackedFloat.round decreaseExponent
    simp only [isTotal, target, isAmount, Nat.shiftLeft_eq]
  rw [lengthened, isTotal]
  obtain ⟨rounded, newExponent, newPositive, isRounded, full, small, least, -⟩ :=
    exists_roundWithAccuracy_normal sign .exact (Nat.mul_pos positive (Nat.two_pow_pos amount))
      ((totalExponent_mul_two_pow positive amount).trans isTotal) (by omega) (by omega)
  exact ⟨rounded, newExponent, newPositive, isRounded, full, small, least⟩

end Targets

end Binary64

end ExprCalculus
