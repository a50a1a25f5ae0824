import ExprCalculus.Proofs.Doubles.Difference
import ExprCalculus.Proofs.Doubles.Nearest
import ExprCalculus.Proofs.Doubles.Tolerance

/-!
# Whole doubles

A double may be exactly a whole number.  The sum of two whole doubles is exact if it is a
double at all, and otherwise it is rounded to a double that is at least one in magnitude;
a product is exact if it is a double.  Which whole numbers are doubles is a matter of their
bits, and with a number its divisors are doubles.
-/

namespace ExprCalculus

namespace Binary64

open Float.Model Float.Model.UnpackedFloat

/-- A double is exactly a whole number. -/
def IsWhole (value : Float) (number : ℤ) : Prop :=
  toRat? value = some (number : ℚ)

/-- A whole number is exactly a double. -/
def Representable (number : ℤ) : Prop :=
  ∃ value, IsWhole value number

variable {value other : Float} {number second : ℤ}

section Parts

variable {sign : Sign} {coefficient : ℕ} {exponent : ℤ} {positive : 0 < coefficient}

theorem isWhole_of_zero (parts : unpacked value = .zero sign) :
    IsWhole value number ↔ number = 0 := by
  have ratio := ratio_scaledByTwo 0 (-1074)
  have isMagnitude := magnitude?_eq value
  rw [parts] at isMagnitude
  rw [Nat.cast_zero, zero_mul] at ratio
  have isZero : toRat? value = some 0 := by
    unfold toRat?
    rw [isMagnitude, Option.map_some]
    dsimp only
    rw [Rat.mkRat_eq_div, Rat.mkRat_eq_div, Int.cast_neg, Int.cast_natCast, neg_div, ratio,
      neg_zero, ite_self]
  rw [IsWhole, isZero, Option.some.injEq, eq_comm, Int.cast_eq_zero]

theorem isWhole_of_finite (parts : unpacked value = .finite sign coefficient exponent positive) :
    IsWhole value number ↔ ((sign.apply coefficient : ℤ) : ℚ) * 2 ^ exponent = number := by
  rw [IsWhole, toRat?_eq parts, Option.some.injEq]
  cases sign with
  | negative => rw [if_pos (by decide), Sign.apply, Int.cast_neg, neg_mul, Int.cast_natCast]
  | positive => rw [if_neg (by decide), Sign.apply, Int.cast_natCast]

/-- A whole double is a zero or has a coefficient and an exponent. -/
theorem IsWhole.cases (whole : IsWhole value number) :
    (∃ sign, unpacked value = .zero sign ∧ number = 0) ∨
      ∃ sign coefficient exponent positive,
        unpacked value = .finite sign coefficient exponent positive ∧
          ((sign.apply coefficient : ℤ) : ℚ) * 2 ^ exponent = number := by
  cases parts : unpacked value with
  | zero sign => exact .inl ⟨sign, rfl, (isWhole_of_zero parts).mp whole⟩
  | finite sign coefficient exponent positive =>
      exact .inr ⟨sign, coefficient, exponent, positive, rfl, (isWhole_of_finite parts).mp whole⟩
  | infinity sign | notANumber =>
      have finite : (unpacked value).isFinite = true := isFinite_of_toRat? whole
      rw [parts] at finite
      cases finite

theorem apply_neg (sign : Sign) (magnitude : ℤ) :
    (-sign).apply magnitude = -sign.apply magnitude := by
  cases sign
  · exact (neg_neg _).symm
  · rfl

theorem apply_mul (sign otherSign : Sign) (first second : ℤ) :
    (sign * otherSign).apply (first * second) = sign.apply first * otherSign.apply second := by
  cases sign <;> cases otherSign
  · exact (neg_mul_neg _ _).symm
  · exact (neg_mul _ _).symm
  · exact (mul_neg _ _).symm
  · rfl

theorem apply_ne_zero (sign : Sign) (positive : 0 < coefficient) :
    sign.apply (coefficient : ℤ) ≠ 0 := by
  cases sign <;> simp only [Sign.apply] <;> omega

/-- A whole number other than zero has a coefficient of 53 bits. -/
theorem normal_of_whole (canonical : IsCanonical (.finite sign coefficient exponent positive))
    (isNumber : ((sign.apply coefficient : ℤ) : ℚ) * 2 ^ exponent = number) :
    2 ^ 52 ≤ coefficient ∧ -52 ≤ exponent := by
  obtain ⟨small, least, -, full⟩ := canonical
  have unit := two_zpow_pos exponent
  have nonzero : number ≠ 0 := by
    rintro rfl
    rw [Int.cast_zero, mul_eq_zero, Int.cast_eq_zero] at isNumber
    exact isNumber.elim (apply_ne_zero sign positive) unit.ne'
  have magnitude : (coefficient : ℚ) * 2 ^ exponent = |(number : ℚ)| := by
    rw [← isNumber, abs_mul, abs_of_pos unit]
    cases sign <;> simp [Sign.apply]
  have atLeastOne : (1 : ℚ) ≤ coefficient * 2 ^ exponent := by
    rw [magnitude]
    exact_mod_cast Int.one_le_abs nonzero
  have large : -52 ≤ exponent := by
    by_contra tooSmall
    have unitSmall : (2 : ℚ) ^ exponent ≤ 2 ^ (-53 : ℤ) :=
      zpow_le_zpow_right₀ (by norm_num) (by omega)
    have coefficientSmall : (coefficient : ℚ) < 2 ^ 53 := by exact_mod_cast small
    have product : (coefficient : ℚ) * 2 ^ exponent < 2 ^ 53 * 2 ^ (-53 : ℤ) :=
      mul_lt_mul coefficientSmall unitSmall unit (by positivity)
    norm_num at product
    linarith
  exact ⟨full.resolve_right (by omega), large⟩

end Parts

section Rounding

variable {sign : Sign} {coefficient target : ℕ} {exponent targetExponent : ℤ}
  {positive : 0 < target}

theorem coefficient_of_value (order : exponent ≤ targetExponent)
    (sameValue : (coefficient : ℚ) * 2 ^ exponent = target * 2 ^ targetExponent) :
    coefficient = target * 2 ^ (targetExponent - exponent).toNat := by
  obtain ⟨amount, rfl⟩ : ∃ amount : ℕ, targetExponent = exponent + amount :=
    ⟨(targetExponent - exponent).toNat, by omega⟩
  rw [zpow_add₀ (by norm_num), mul_left_comm, mul_comm (coefficient : ℚ), zpow_natCast] at sameValue
  have cancelled := mul_left_cancel₀ (two_zpow_pos exponent).ne' sameValue
  rw [add_sub_cancel_left, Int.toNat_natCast]
  exact_mod_cast cancelled

/-- Rounding keeps the value of a double, whatever coefficient and exponent it is given
with, if the exponent is not too large. -/
theorem roundWithAccuracy_of_value
    (canonical : IsCanonical (.finite sign target targetExponent positive))
    (order : exponent ≤ targetExponent)
    (sameValue : (coefficient : ℚ) * 2 ^ exponent = target * 2 ^ targetExponent) :
    roundWithAccuracy Format.binary64 sign coefficient exponent .exact =
      .finite sign target targetExponent positive := by
  have exactly := roundWithAccuracy_exact canonical (targetExponent - exponent).toNat
  rw [coefficient_of_value order sameValue]
  have shifted : targetExponent - ((targetExponent - exponent).toNat : ℤ) = exponent := by omega
  rwa [shifted] at exactly

theorem totalExponent_of_value (coefficientPositive : 0 < coefficient) (targetPositive : 0 < target)
    (sameValue : (coefficient : ℚ) * 2 ^ exponent = target * 2 ^ targetExponent) :
    totalExponent coefficient exponent = totalExponent target targetExponent := by
  rcases le_total exponent targetExponent with order | order
  · have total := @totalExponent_mul_two_pow target targetExponent targetPositive
      (targetExponent - exponent).toNat
    rwa [← coefficient_of_value order sameValue,
      show targetExponent - ((targetExponent - exponent).toNat : ℤ) = exponent by omega] at total
  · have total := @totalExponent_mul_two_pow coefficient exponent coefficientPositive
      (exponent - targetExponent).toNat
    rw [← coefficient_of_value order sameValue.symm,
      show exponent - ((exponent - targetExponent).toNat : ℤ) = targetExponent by omega] at total
    exact total.symm

/-- Lengthening a coefficient keeps the value. -/
theorem decreaseExponent_value (coefficient : ℕ) (exponent target : ℤ) :
    ((decreaseExponent coefficient exponent target).1 : ℚ) *
        2 ^ (decreaseExponent coefficient exponent target).2 = coefficient * 2 ^ exponent := by
  simp only [decreaseExponent, Nat.shiftLeft_eq, Nat.cast_mul, Nat.cast_pow, Nat.cast_ofNat]
  rw [← zpow_natCast, mul_assoc, ← zpow_add₀ (by norm_num)]
  congr 2
  omega

/-- Rounding keeps the value of a double, whatever coefficient and exponent it is given
with. -/
theorem round_of_value (canonical : IsCanonical (.finite sign target targetExponent positive))
    (coefficientPositive : 0 < coefficient)
    (sameValue : (coefficient : ℚ) * 2 ^ exponent = target * 2 ^ targetExponent) :
    round Format.binary64 sign coefficient exponent =
      .finite sign target targetExponent positive := by
  have aim := targetExponent_of_canonical canonical
  rw [← totalExponent_of_value coefficientPositive positive sameValue] at aim
  unfold UnpackedFloat.round
  rw [aim]
  refine roundWithAccuracy_of_value canonical ?_
    ((decreaseExponent_value coefficient exponent targetExponent).trans sameValue)
  omega

end Rounding

section Ranks

theorem rank_of_zero {sign : Sign} (parts : unpacked value = .zero sign) :
    value.isNaN = false ∧ rank value = 0 := by
  rw [isNaN_eq_false, rank, parts]
  exact ⟨(fun undefined => by cases undefined), rank_zero sign⟩

theorem abs_rank_of_finite {sign : Sign} {coefficient : ℕ} {exponent : ℤ}
    {positive : 0 < coefficient}
    (parts : unpacked value = .finite sign coefficient exponent positive) :
    value.isNaN = false ∧ |rank value| = (exponent + 1074).toNat * 2 ^ 52 + coefficient := by
  rw [isNaN_eq_false, rank, parts]
  refine ⟨(fun undefined => by cases undefined), ?_⟩
  have magnitude : |rankOfParts (.finite sign coefficient exponent positive)| =
      ((magnitudeBits (.finite sign coefficient exponent positive) : ℕ) : ℤ) := by
    cases sign with
    | negative => exact (abs_neg _).trans (abs_of_nonneg (Int.natCast_nonneg _))
    | positive => exact abs_of_nonneg (Int.natCast_nonneg _)
  rw [magnitude, magnitudeBits]
  push_cast
  rfl

/-- Doubles of the same rank other than zero are the same. -/
theorem eq_of_rank_eq (sameRank : rank value = rank other) (nonzero : rank value ≠ 0) :
    value = other := by
  apply unpacked_injective
  have sameBits : bitsOfParts (unpacked value) = bitsOfParts (unpacked other) := by
    unfold rank rankOfParts at sameRank nonzero
    unfold bitsOfParts
    generalize signPart (unpacked value) = sign at sameRank nonzero ⊢
    generalize signPart (unpacked other) = otherSign at sameRank ⊢
    cases sign <;> cases otherSign <;> simp only [Sign.apply] at sameRank nonzero <;> omega
  rw [← partsOfBits_bitsOfParts (isCanonical_unpacked value), sameBits,
    partsOfBits_bitsOfParts (isCanonical_unpacked other)]

end Ranks

/-- A sum or product of whole numbers as a double: exact if it is a double at all, and at
least one in magnitude unless it is zero. -/
structure IsRounded (value : Float) (number : ℤ) : Prop where
  exact : Representable number → IsWhole value number
  large : number ≠ 0 → value.isNaN = false ∧ rank (ofInt 1) ≤ |rank value|

namespace IsWhole

theorem unique (whole : IsWhole value number) (again : IsWhole value second) : number = second := by
  have same := whole.symm.trans again
  rwa [Option.some.injEq, Int.cast_inj] at same

theorem isRounded (whole : IsWhole value number) : IsRounded value number where
  exact _ := whole
  large nonzero := by
    rcases whole.cases with ⟨_, _, rfl⟩ | ⟨sign, coefficient, exponent, positive, parts, isNumber⟩
    · exact absurd rfl nonzero
    · have canonical := isCanonical_unpacked value
      rw [parts] at canonical
      obtain ⟨full, least⟩ := normal_of_whole canonical isNumber
      obtain ⟨defined, isRank⟩ := abs_rank_of_finite parts
      refine ⟨defined, ?_⟩
      have one : rank (ofInt 1) = 1022 * 2 ^ 52 + 2 ^ 52 := rfl
      rw [isRank, one]
      omega

theorem rank_eq_zero (whole : IsWhole value 0) : value.isNaN = false ∧ rank value = 0 := by
  rcases whole.cases with ⟨_, parts, _⟩ | ⟨sign, coefficient, exponent, positive, _, isZero⟩
  · exact rank_of_zero parts
  · rw [Int.cast_zero, mul_eq_zero, Int.cast_eq_zero] at isZero
    exact absurd isZero (not_or_intro (apply_ne_zero sign positive) (two_zpow_pos exponent).ne')

end IsWhole

section Operations

variable {sign : Sign} {coefficient : ℕ} {mantissa exponent : ℤ}

theorem one_le_totalExponent (atLeastOne : (1 : ℚ) ≤ coefficient * 2 ^ exponent) :
    1 ≤ totalExponent coefficient exponent := by
  have short : (coefficient : ℚ) < 2 ^ ((coefficient.log2 : ℤ) + 1) := by
    exact_mod_cast Nat.lt_log2_self (n := coefficient)
  have power : (2 : ℚ) ^ (0 : ℤ) < 2 ^ ((coefficient.log2 : ℤ) + 1 + exponent) := by
    rw [zpow_zero, zpow_add₀ (by norm_num)]
    exact atLeastOne.trans_lt (mul_lt_mul_of_pos_right short (two_zpow_pos exponent))
  have order := (zpow_lt_zpow_iff_right₀ (by norm_num)).mp power
  rw [totalExponent]
  omega

theorem one_le_abs_rank_packed (positive : 0 < coefficient) (full : 2 ^ 52 ≤ coefficient)
    (small : coefficient < 2 ^ 53) (large : -52 ≤ exponent) :
    (packed (.finite sign coefficient exponent positive)).isNaN = false ∧
      rank (ofInt 1) ≤ |rank (packed (.finite sign coefficient exponent positive))| := by
  obtain ⟨defined, atLeastOne⟩ := @one_le_rank_packed coefficient exponent positive full small large
  have sameAbs := abs_packed_finite sign .positive coefficient exponent positive
  have isDefined : (packed (.finite sign coefficient exponent positive)).isNaN = false := by
    rw [← isNaN_abs, sameAbs, isNaN_abs, defined]
  refine ⟨isDefined, ?_⟩
  rw [← rank_abs _ isDefined, sameAbs, rank_abs _ defined]
  exact atLeastOne.trans (le_abs_self _)

/-- A whole number that is a double has the coefficient and the exponent of the double too,
whatever coefficient and exponent it is given with. -/
theorem exists_canonical (representable : Representable number) (positive : 0 < coefficient)
    (isNumber : ((sign.apply coefficient : ℤ) : ℚ) * 2 ^ exponent = number) :
    ∃ target targetExponent targetPositive,
      IsCanonical (.finite sign target targetExponent targetPositive) ∧
        ((sign.apply target : ℤ) : ℚ) * 2 ^ targetExponent = number ∧
        (coefficient : ℚ) * 2 ^ exponent = target * 2 ^ targetExponent := by
  obtain ⟨exactly, whole⟩ := representable
  rcases whole.cases with
    ⟨_, _, rfl⟩ | ⟨otherSign, target, targetExponent, targetPositive, parts, same⟩
  · rw [Int.cast_zero, mul_eq_zero, Int.cast_eq_zero] at isNumber
    exact absurd isNumber (not_or_intro (apply_ne_zero sign positive) (two_zpow_pos exponent).ne')
  · have canonical := isCanonical_unpacked exactly
    rw [parts] at canonical
    have value : (0 : ℚ) < coefficient * 2 ^ exponent :=
      mul_pos (Nat.cast_pos.mpr positive) (two_zpow_pos exponent)
    have targetValue : (0 : ℚ) < target * 2 ^ targetExponent :=
      mul_pos (Nat.cast_pos.mpr targetPositive) (two_zpow_pos targetExponent)
    have sameParts : sign = otherSign ∧
        (coefficient : ℚ) * 2 ^ exponent = target * 2 ^ targetExponent := by
      rw [← same] at isNumber
      cases sign <;> cases otherSign <;>
        simp only [Sign.apply, Int.cast_neg, Int.cast_natCast, neg_mul] at isNumber
      · exact ⟨rfl, neg_injective isNumber⟩
      · linarith
      · linarith
      · exact ⟨rfl, isNumber⟩
    obtain ⟨rfl, sameValue⟩ := sameParts
    exact ⟨target, targetExponent, targetPositive, canonical, same, sameValue⟩

/-- Rounding a whole number. -/
theorem isRounded_round (positive : 0 < coefficient)
    (isNumber : ((sign.apply coefficient : ℤ) : ℚ) * 2 ^ exponent = number) :
    IsRounded (packed (round Format.binary64 sign coefficient exponent)) number where
  exact representable := by
    obtain ⟨target, targetExponent, targetPositive, canonical, same, sameValue⟩ :=
      exists_canonical representable positive isNumber
    rw [round_of_value canonical positive sameValue]
    exact (isWhole_of_finite (unpacked_packed canonical)).mpr same
  large nonzero := by
    have magnitude : (coefficient : ℚ) * 2 ^ exponent = |(number : ℚ)| := by
      rw [← isNumber, abs_mul, abs_of_pos (two_zpow_pos exponent)]
      cases sign <;> simp [Sign.apply]
    have atLeastOne : (1 : ℚ) ≤ coefficient * 2 ^ exponent := by
      rw [magnitude]
      exact_mod_cast Int.one_le_abs nonzero
    have total := one_le_totalExponent atLeastOne
    obtain ⟨rounded, newExponent, newPositive, isRounded, full, small, least⟩ :=
      @exists_round_normal coefficient exponent sign positive (by omega)
    rw [isRounded]
    exact one_le_abs_rank_packed newPositive full small (by omega)

theorem isRounded_normalize (isNumber : (mantissa : ℚ) * 2 ^ exponent = number) :
    IsRounded (packed (normalize Format.binary64 mantissa exponent .positive)) number := by
  unfold UnpackedFloat.normalize
  rcases lt_trichotomy mantissa 0 with below | rfl | above
  · rw [compare_lt_iff_lt.mpr below]
    have isNegated : Sign.negative.apply ((-mantissa).toNat : ℤ) = mantissa := by
      rw [Sign.apply]
      omega
    refine isRounded_round (by omega) ?_
    rw [isNegated, isNumber]
  · rw [Int.cast_zero, zero_mul, eq_comm, Int.cast_eq_zero] at isNumber
    subst isNumber
    have canonical : IsCanonical (.zero .positive) := trivial
    exact ((isWhole_of_zero (unpacked_packed canonical)).mpr rfl).isRounded
  · rw [compare_gt_iff_gt.mpr above]
    have isItself : Sign.positive.apply (mantissa.toNat : ℤ) = mantissa := by
      rw [Sign.apply]
      omega
    refine isRounded_round (by omega) ?_
    rw [isItself, isNumber]

theorem aligned_value (sign : Sign) (coefficient : ℕ) {exponent low : ℤ} (order : low ≤ exponent) :
    ((sign.apply ((coefficient <<< (exponent - low).toNat : ℕ) : ℤ) : ℤ) : ℚ) * 2 ^ low =
      ((sign.apply coefficient : ℤ) : ℚ) * 2 ^ exponent := by
  have value := decreaseExponent_value coefficient exponent low
  have reached : (decreaseExponent coefficient exponent low).2 = low := by
    change exponent - ((exponent - low).toNat : ℤ) = low
    omega
  rw [reached] at value
  change ((coefficient <<< (exponent - low).toNat : ℕ) : ℚ) * 2 ^ low = _ at value
  cases sign <;> simp only [Sign.apply, Int.cast_neg, Int.cast_natCast, neg_mul, value]

/-- Subtracting is adding the opposite. -/
theorem sub_eq_add_neg_double (value other : Float) : value - other = value + -other := by
  have difference : value - other =
      packed (UnpackedFloat.sub Format.binary64 (unpacked value) (unpacked other)) := rfl
  have sum : value + -other =
      packed (UnpackedFloat.add Format.binary64 (unpacked value) (unpacked (-other))) := rfl
  rw [difference, sum, unpacked_neg]
  congr 1
  match unpacked value, unpacked other with
  | .notANumber, _ => rfl
  | .infinity sign, .notANumber | .zero sign, .notANumber | .finite sign _ _ _, .notANumber => rfl
  | .infinity _, .infinity _ | .infinity _, .zero _ | .infinity _, .finite _ _ _ _ => rfl
  | .zero _, .infinity _ | .zero _, .zero _ | .zero _, .finite _ _ _ _ => rfl
  | .finite _ _ _ _, .infinity _ | .finite _ _ _ _, .zero _ => rfl
  | .finite _ _ _ _, .finite otherSign _ _ _ =>
      change normalize _ (_ - otherSign.apply _) _ _ = normalize _ (_ + (-otherSign).apply _) _ _
      rw [apply_neg, sub_eq_add_neg]

namespace IsWhole

theorem neg (whole : IsWhole value number) : IsWhole (-value) (-number) := by
  rcases whole.cases with
    ⟨sign, parts, rfl⟩ | ⟨sign, coefficient, exponent, positive, parts, isNumber⟩
  · have opposite : unpacked (-value) = .zero (-sign) := by
      rw [unpacked_neg, parts]
      rfl
    exact (isWhole_of_zero opposite).mpr neg_zero
  · have opposite : unpacked (-value) = .finite (-sign) coefficient exponent positive := by
      rw [unpacked_neg, parts]
      rfl
    rw [isWhole_of_finite opposite, apply_neg, Int.cast_neg, neg_mul, isNumber, Int.cast_neg]

/-- The sum of two whole doubles is rounded. -/
theorem add (whole : IsWhole value number) (otherWhole : IsWhole other second) :
    IsRounded (value + other) (number + second) := by
  have result : value + other =
      packed (UnpackedFloat.add Format.binary64 (unpacked value) (unpacked other)) := rfl
  rcases whole.cases with
    ⟨sign, parts, rfl⟩ | ⟨sign, coefficient, exponent, positive, parts, isNumber⟩
  · rcases otherWhole.cases with ⟨otherSign, otherParts, rfl⟩ | ⟨_, _, _, _, otherParts, _⟩
    · have canonical (sign : Sign) : IsCanonical (.zero sign) := trivial
      rw [result, parts, otherParts]
      have isZero (sign : Sign) : IsRounded (packed (.zero sign)) (0 + 0) :=
        ((isWhole_of_zero (unpacked_packed (canonical sign))).mpr rfl).isRounded
      cases sign <;> cases otherSign <;> exact isZero _
    · have unchanged : value + other = other := by
        rw [result, parts, otherParts]
        change packed (.finite _ _ _ _) = other
        rw [← otherParts, packed_unpacked]
      rw [unchanged, zero_add]
      exact otherWhole.isRounded
  · rcases otherWhole.cases with
      ⟨_, otherParts, rfl⟩ | ⟨otherSign, otherCoefficient, otherExponent, _, otherParts, isSecond⟩
    · have unchanged : value + other = value := by
        rw [result, otherParts, parts]
        change packed (.finite _ _ _ _) = value
        rw [← parts, packed_unpacked]
      rw [unchanged, add_zero]
      exact whole.isRounded
    · rw [result, parts, otherParts]
      apply isRounded_normalize
      rw [Int.cast_add, add_mul, aligned_value sign coefficient (min_le_left _ _),
        aligned_value otherSign otherCoefficient (min_le_right _ _), isNumber, isSecond,
        Int.cast_add]

/-- The difference of two whole doubles is rounded. -/
theorem sub (whole : IsWhole value number) (otherWhole : IsWhole other second) :
    IsRounded (value - other) (number - second) := by
  rw [sub_eq_add_neg, sub_eq_add_neg_double]
  exact whole.add otherWhole.neg

/-- The product of two whole doubles is exact if it is a double. -/
theorem mul (whole : IsWhole value number) (otherWhole : IsWhole other second)
    (representable : Representable (number * second)) :
    IsWhole (value * other) (number * second) := by
  have result : value * other =
      packed (UnpackedFloat.mul Format.binary64 (unpacked value) (unpacked other)) := rfl
  have isZero (sign : Sign) : IsWhole (packed (.zero sign)) 0 := by
    have canonical : IsCanonical (.zero sign) := trivial
    exact (isWhole_of_zero (unpacked_packed canonical)).mpr rfl
  rcases whole.cases with
    ⟨sign, parts, rfl⟩ | ⟨sign, coefficient, exponent, positive, parts, isNumber⟩
  · rcases otherWhole.cases with ⟨otherSign, otherParts, rfl⟩ | ⟨otherSign, _, _, _, otherParts, _⟩
    all_goals
      rw [result, parts, otherParts, zero_mul]
      exact isZero (sign * otherSign)
  · rcases otherWhole.cases with
      ⟨otherSign, otherParts, rfl⟩ |
        ⟨otherSign, otherCoefficient, otherExponent, otherPositive, otherParts, isSecond⟩
    · rw [result, parts, otherParts, mul_zero]
      exact isZero (sign * otherSign)
    · have full := isCanonical_unpacked value
      have otherFull := isCanonical_unpacked other
      rw [parts] at full
      rw [otherParts] at otherFull
      obtain ⟨long, -⟩ := normal_of_whole full isNumber
      obtain ⟨otherLong, -⟩ := normal_of_whole otherFull isSecond
      have isProduct :
          (((sign * otherSign).apply ((coefficient * otherCoefficient : ℕ) : ℤ) : ℤ) : ℚ) *
            2 ^ (exponent + otherExponent) = (number * second : ℤ) := by
        rw [Nat.cast_mul, apply_mul, Int.cast_mul, zpow_add₀ (by norm_num), mul_mul_mul_comm,
          isNumber, isSecond, Int.cast_mul]
      obtain ⟨target, targetExponent, targetPositive, canonical, same, sameValue⟩ :=
        exists_canonical representable (Nat.mul_pos positive otherPositive) isProduct
      -- A product of 105 bits is only ever shortened.
      have order : exponent + otherExponent ≤ targetExponent := by
        by_contra shorter
        have lengthened := coefficient_of_value (not_le.mp shorter).le sameValue.symm
        have atLeast := Nat.mul_le_mul long otherLong
        have more := Nat.le_mul_of_pos_right (coefficient * otherCoefficient)
          (Nat.two_pow_pos (exponent + otherExponent - targetExponent).toNat)
        have small := canonical.1
        omega
      rw [result, parts, otherParts]
      change IsWhole (packed (roundWithAccuracy _ _ _ _ _)) _
      rw [roundWithAccuracy_of_value canonical order sameValue]
      exact (isWhole_of_finite (unpacked_packed canonical)).mpr same

end IsWhole

end Operations

section Divisors

theorem isWhole_zero : IsWhole 0.0 0 :=
  (isWhole_of_zero rfl).mpr rfl

theorem isWhole_one : IsWhole (ofInt 1) 1 := by
  rw [isWhole_of_finite unpacked_one]
  decide +kernel

theorem natAbs_of_value {sign : Sign} {coefficient : ℕ} {exponent : ℤ}
    (isNumber : ((sign.apply coefficient : ℤ) : ℚ) * 2 ^ exponent = number) :
    (number.natAbs : ℚ) = coefficient * 2 ^ exponent := by
  rw [Nat.cast_natAbs, Int.cast_abs, ← isNumber, abs_mul, abs_of_pos (two_zpow_pos exponent)]
  cases sign <;> simp [Sign.apply]

/-- A whole double has at most 53 bits and zeros behind them. -/
theorem IsWhole.exists_coefficient (whole : IsWhole value number) :
    number.natAbs < 2 ^ 1024 ∧
      ∃ coefficient shift : ℕ, coefficient < 2 ^ 53 ∧ number.natAbs = coefficient * 2 ^ shift := by
  rcases whole.cases with ⟨_, _, rfl⟩ | ⟨sign, coefficient, exponent, positive, parts, isNumber⟩
  · exact ⟨by rw [Int.natAbs_zero]; positivity, 0, 0, by positivity, rfl⟩
  have canonical := isCanonical_unpacked value
  rw [parts] at canonical
  obtain ⟨small, -, greatest, -⟩ := canonical
  have isValue := natAbs_of_value isNumber
  rcases le_total 0 exponent with whole | fractional
  · obtain ⟨shift, rfl⟩ := Int.eq_ofNat_of_zero_le whole
    rw [zpow_natCast] at isValue
    have isMultiple : number.natAbs = coefficient * 2 ^ shift := by exact_mod_cast isValue
    refine ⟨?_, coefficient, shift, small, isMultiple⟩
    have limit : 53 + shift ≤ 1024 := by omega
    refine lt_of_lt_of_le ?_ (pow_le_pow_right₀ one_le_two limit)
    rw [isMultiple, pow_add]
    exact Nat.mul_lt_mul_of_pos_right small (Nat.two_pow_pos shift)
  · have zeroExponent : (number.natAbs : ℚ) * 2 ^ (0 : ℤ) = coefficient * 2 ^ exponent := by
      rw [isValue, zpow_zero, mul_one]
    have isMultiple := coefficient_of_value fractional zeroExponent.symm
    have atMost := Nat.le_mul_of_pos_right number.natAbs (Nat.two_pow_pos (0 - exponent).toNat)
    rw [← isMultiple] at atMost
    exact ⟨by omega, number.natAbs, 0, by omega, by rw [pow_zero, mul_one]⟩

/-- A number of at most 53 bits and zeros behind them is a double, if it is not too large. -/
theorem representable_of_coefficient (bounded : number.natAbs < 2 ^ 1024) {coefficient shift : ℕ}
    (small : coefficient < 2 ^ 53) (isMultiple : number.natAbs = coefficient * 2 ^ shift) :
    Representable number := by
  rcases Nat.eq_zero_or_pos coefficient with rfl | positive
  · rw [zero_mul, Int.natAbs_eq_zero] at isMultiple
    exact ⟨0.0, isMultiple ▸ isWhole_zero⟩
  have short : coefficient.log2 < 53 := (Nat.log2_lt (by omega)).mpr small
  obtain ⟨amount, isAmount⟩ : ∃ amount, coefficient.log2 + amount = 52 :=
    ⟨52 - coefficient.log2, by omega⟩
  have bits : (coefficient * 2 ^ amount).log2 = 52 := by
    rw [log2_mul_two_pow positive, isAmount]
  have targetPositive : 0 < coefficient * 2 ^ amount :=
    Nat.mul_pos positive (Nat.two_pow_pos amount)
  obtain ⟨full, fits⟩ := (Nat.log2_eq_iff targetPositive.ne').mp bits
  have exponentSmall : coefficient.log2 + shift < 1024 := by
    have power : 2 ^ (coefficient.log2 + shift) < 2 ^ 1024 := by
      refine lt_of_le_of_lt ?_ bounded
      rw [isMultiple, pow_add]
      exact Nat.mul_le_mul_right _ (Nat.log2_self_le positive.ne')
    exact (pow_lt_pow_iff_right₀ one_lt_two).mp power
  have canonical (sign : Sign) :
      IsCanonical (.finite sign (coefficient * 2 ^ amount) (shift - amount) targetPositive) :=
    ⟨fits, by omega, by omega, .inl full⟩
  have magnitude : (((coefficient * 2 ^ amount : ℕ) : ℤ) : ℚ) * 2 ^ ((shift : ℤ) - amount) =
      number.natAbs := by
    rw [isMultiple, zpow_sub₀ (by norm_num), zpow_natCast, zpow_natCast]
    push_cast
    field_simp
  rcases Int.natAbs_eq number with isNumber | isNumber
  · refine ⟨_, (isWhole_of_finite (unpacked_packed (canonical .positive))).mpr ?_⟩
    rw [Sign.apply, magnitude, isNumber, Int.natAbs_natCast, Int.cast_natCast]
  · refine ⟨_, (isWhole_of_finite (unpacked_packed (canonical .negative))).mpr ?_⟩
    rw [Sign.apply, Int.cast_neg, neg_mul, magnitude, isNumber, Int.natAbs_neg,
      Int.natAbs_natCast, Int.cast_neg, Int.cast_natCast]

theorem representable_of_small (small : number.natAbs < 2 ^ 53) : Representable number :=
  representable_of_coefficient (by omega) small (by rw [pow_zero, mul_one])

/-- The divisors of a double other than zero are doubles: an odd divisor divides the
coefficient. -/
theorem Representable.of_dvd (representable : Representable number) (nonzero : number ≠ 0)
    (divides : second ∣ number) : Representable second := by
  obtain ⟨exactly, whole⟩ := representable
  obtain ⟨bounded, coefficient, shift, small, isMultiple⟩ := whole.exists_coefficient
  have dividesAbs := Int.natAbs_dvd_natAbs.mpr divides
  have absPositive : 0 < number.natAbs := Int.natAbs_pos.mpr nonzero
  have atMost := Nat.le_of_dvd absPositive dividesAbs
  have secondPositive := Nat.pos_of_dvd_of_pos dividesAbs absPositive
  obtain ⟨power, oddPart, isOdd, isSecond⟩ := Nat.exists_eq_two_pow_mul_odd secondPositive.ne'
  have oddDivides : oddPart ∣ coefficient * 2 ^ shift := by
    rw [← isMultiple]
    exact (Dvd.intro_left _ isSecond.symm).trans dividesAbs
  have coprime : Nat.Coprime oddPart (2 ^ shift) :=
    (Nat.coprime_two_right.mpr isOdd).pow_right shift
  have coefficientPositive : 0 < coefficient := by
    rw [isMultiple] at absPositive
    exact Nat.pos_of_mul_pos_right absPositive
  have oddSmall := Nat.le_of_dvd coefficientPositive (coprime.dvd_of_dvd_mul_right oddDivides)
  exact representable_of_coefficient (by omega) (by omega) (isSecond.trans (Nat.mul_comm _ _))

end Divisors

end Binary64

end ExprCalculus
