import ExprCalculus.Proofs.Doubles.Whole

/-!
# Relative errors of doubles

An operation on doubles that are not small rounds its exact result once, which changes it by
one part in `2 ^ 51` at most, or overflows because the exact result is about as large as the
largest double.  So a number computed with several operations is known up to one such factor
for every rounding.
-/

namespace ExprCalculus

namespace Binary64

open Float.Model Float.Model.UnpackedFloat

/-- The factor by which a rounding changes a number at most, up or down. -/
def slack : ℚ :=
  1 + 1 / 2 ^ 51

theorem one_le_slack : 1 ≤ slack := by
  norm_num [slack]

theorem one_le_slack_pow (roundings : ℕ) : 1 ≤ slack ^ roundings :=
  one_le_pow₀ one_le_slack

theorem slack_pow_pos (roundings : ℕ) : 0 < slack ^ roundings :=
  zero_lt_one.trans_le (one_le_slack_pow roundings)

theorem slack_pow_le {roundings more : ℕ} (order : roundings ≤ more) :
    slack ^ roundings ≤ slack ^ more :=
  pow_le_pow_right₀ one_le_slack order

/-- A double is the result of so many roundings of a positive number.  It is infinite only
if the number may have grown beyond the largest double. -/
inductive WithinRoundings (roundings : ℕ) (value : Float) (number : ℚ) : Prop
  | finite {exact : ℚ} (isValue : toRat? value = some exact)
      (below : number ≤ exact * slack ^ roundings) (above : exact ≤ number * slack ^ roundings)
  | infinite (isInfinite : value = infinity)
      (large : (largestNumber : ℚ) < number * slack ^ roundings)

/-- A number that is itself known up to some roundings. -/
theorem WithinRoundings.trans {first second : ℕ} {value : Float} {middle number : ℚ}
    (within : WithinRoundings first value middle) (below : number ≤ middle * slack ^ second)
    (above : middle ≤ number * slack ^ second) :
    WithinRoundings (first + second) value number := by
  have firstPositive := slack_pow_pos first
  have secondPositive := slack_pow_pos second
  have scaled : middle * slack ^ first ≤ number * slack ^ (first + second) := by
    calc middle * slack ^ first ≤ number * slack ^ second * slack ^ first :=
          mul_le_mul_of_nonneg_right above firstPositive.le
      _ = number * slack ^ (first + second) := by rw [pow_add, mul_assoc, mul_comm (slack ^ second)]
  cases within with
  | finite isValue middleBelow middleAbove =>
      refine .finite isValue ?_ (middleAbove.trans scaled)
      calc number ≤ middle * slack ^ second := below
        _ ≤ _ * slack ^ first * slack ^ second :=
          mul_le_mul_of_nonneg_right middleBelow secondPositive.le
        _ = _ * slack ^ (first + second) := by rw [pow_add, mul_assoc]
  | infinite isInfinite large => exact .infinite isInfinite (large.trans_le scaled)

section Rounding

variable {coefficient : ℕ} {exponent : ℤ} {positive : 0 < coefficient} {number : ℚ}

theorem packed_infinity : packed (.infinity .positive) = infinity := by
  decide

theorem largestNumber_lt : (largestNumber : ℚ) < 2 ^ (1024 : ℤ) := by
  have small : largestNumber < 2 ^ 1024 := by decide +kernel
  exact_mod_cast small

/-- A coefficient of 53 bits that differs from a number by less than one of its units. -/
theorem withinRoundings_packed (full : 2 ^ 52 ≤ coefficient) (small : coefficient < 2 ^ 53)
    (least : -1074 ≤ exponent)
    (close : |(coefficient : ℚ) * 2 ^ exponent - number| ≤ number / 2 ^ 52) :
    WithinRoundings 1 (packed (.finite .positive coefficient exponent positive)) number := by
  obtain ⟨lower, upper⟩ := abs_le.mp close
  have unit := two_zpow_pos exponent
  have valuePositive : (0 : ℚ) < coefficient * 2 ^ exponent :=
    mul_pos (Nat.cast_pos.mpr positive) unit
  have above : (coefficient : ℚ) * 2 ^ exponent ≤ number * slack ^ 1 := by
    rw [pow_one, slack]
    linarith
  have below : number ≤ coefficient * 2 ^ exponent * slack ^ 1 := by
    rw [pow_one, slack]
    linarith
  by_cases overflow : 972 ≤ exponent
  · refine .infinite ((packed_of_overflow .positive overflow).trans packed_infinity) ?_
    have fullCast : (2 : ℚ) ^ 52 ≤ coefficient := by exact_mod_cast full
    calc (largestNumber : ℚ) < 2 ^ (1024 : ℤ) := largestNumber_lt
      _ = 2 ^ 52 * 2 ^ (972 : ℤ) := by rw [← zpow_natCast, ← zpow_add₀ (by norm_num)]; norm_num
      _ ≤ coefficient * 2 ^ exponent :=
        mul_le_mul fullCast (zpow_le_zpow_right₀ (by norm_num) overflow) (two_zpow_pos _).le
          (Nat.cast_nonneg _)
      _ ≤ number * slack ^ 1 := above
  · have canonical : IsCanonical (.finite .positive coefficient exponent positive) :=
      ⟨small, least, by omega, .inl full⟩
    exact .finite (toRat?_eq (unpacked_packed canonical)) below above

/-- A whole number of units that is one of the two around a number of 53 bits is closer to
the number than one unit. -/
theorem close_of_units {quotient units : ℕ} {unit : ℤ} (full : 2 ^ 52 ≤ quotient)
    (lower : (quotient : ℚ) * 2 ^ unit ≤ number) (upper : number ≤ (quotient + 1) * 2 ^ unit)
    (atLeast : quotient ≤ units) (atMost : units ≤ quotient + 1) :
    |(units : ℚ) * 2 ^ unit - number| ≤ number / 2 ^ 52 := by
  have unitPositive := two_zpow_pos unit
  have fullCast : (2 : ℚ) ^ 52 ≤ quotient := by exact_mod_cast full
  have oneUnit : (2 : ℚ) ^ unit ≤ number / 2 ^ 52 := by
    rw [le_div_iff₀ (by norm_num), mul_comm]
    exact (mul_le_mul_of_nonneg_right fullCast unitPositive.le).trans lower
  have least : (quotient : ℚ) * 2 ^ unit ≤ units * 2 ^ unit :=
    mul_le_mul_of_nonneg_right (by exact_mod_cast atLeast) unitPositive.le
  have most : (units : ℚ) * 2 ^ unit ≤ (quotient + 1) * 2 ^ unit :=
    mul_le_mul_of_nonneg_right (by exact_mod_cast atMost) unitPositive.le
  rw [abs_le]
  constructor <;> linarith

/-- Rounding a long coefficient, when the number that is rounded lies between it and the
next one. -/
theorem withinRoundings_round (accuracy : Accuracy) (full : 2 ^ 52 ≤ coefficient)
    (least : -1074 ≤ exponent) (lower : (coefficient : ℚ) * 2 ^ exponent ≤ number)
    (upper : number ≤ (coefficient + 1) * 2 ^ exponent) :
    WithinRoundings 1
      (packed (roundWithAccuracy Format.binary64 .positive coefficient exponent accuracy))
      number := by
  obtain ⟨shift, isShift⟩ : ∃ shift, coefficient.log2 = 52 + shift := by
    have reaches : 52 ≤ coefficient.log2 := (Nat.le_log2 (by omega)).mpr full
    exact ⟨coefficient.log2 - 52, by omega⟩
  obtain ⟨total, isTotal⟩ : ∃ total, totalExponent coefficient exponent = total := ⟨_, rfl⟩
  have totalEq : total = 53 + shift + exponent := by
    rw [← isTotal, totalExponent, isShift]
    push_cast
    ring
  obtain ⟨rounded, newExponent, newPositive, isRounded, roundedFull, roundedSmall, newLeast,
      atLeast, atMost⟩ :=
    exists_roundWithAccuracy_normal .positive accuracy (by omega) isTotal (by omega) (by omega)
  rw [isRounded]
  refine withinRoundings_packed roundedFull roundedSmall (by omega) ?_
  obtain ⟨carried, isCarried⟩ : ∃ carried : ℕ, newExponent = shift + exponent + carried :=
    ⟨(newExponent - (total - 53)).toNat, by omega⟩
  rw [show (newExponent - (total - 53)).toNat = carried by omega,
    show (total - 53 - exponent).toNat = shift by omega] at atLeast atMost
  have exponentPositive := two_zpow_pos exponent
  have unitEq : (2 : ℚ) ^ ((shift : ℤ) + exponent) = ((2 ^ shift : ℕ) : ℚ) * 2 ^ exponent := by
    rw [zpow_add₀ (by norm_num), zpow_natCast, Nat.cast_pow, Nat.cast_ofNat]
  have valueEq : (rounded : ℚ) * 2 ^ newExponent =
      ((rounded * 2 ^ carried : ℕ) : ℚ) * 2 ^ ((shift : ℤ) + exponent) := by
    rw [isCarried, zpow_add₀ (by norm_num), zpow_natCast, Nat.cast_mul, Nat.cast_pow,
      Nat.cast_ofNat]
    ring
  rw [valueEq]
  refine close_of_units ?_ ?_ ?_ atLeast atMost
  · rw [Nat.le_div_iff_mul_le (Nat.two_pow_pos shift), ← pow_add, ← isShift]
    exact Nat.log2_self_le (by omega)
  · have whole : coefficient / 2 ^ shift * 2 ^ shift ≤ coefficient := Nat.div_mul_le_self _ _
    rw [unitEq, ← mul_assoc]
    refine le_trans (mul_le_mul_of_nonneg_right ?_ exponentPositive.le) lower
    exact_mod_cast whole
  · have next : coefficient + 1 ≤ (coefficient / 2 ^ shift + 1) * 2 ^ shift :=
      Nat.lt_mul_of_div_lt (Nat.lt_succ_self _) (Nat.two_pow_pos shift)
    rw [unitEq, ← mul_assoc]
    refine upper.trans (mul_le_mul_of_nonneg_right ?_ exponentPositive.le)
    exact_mod_cast next

end Rounding

section Operations

variable {value other : Float} {first second : ℚ}

/-- The parts of a double that is not small. -/
theorem exists_parts (isValue : toRat? value = some first) (large : 1 / 2 ≤ first) :
    ∃ coefficient exponent positive,
      unpacked value = .finite .positive coefficient exponent positive ∧
        first = coefficient * 2 ^ exponent ∧ 2 ^ 52 ≤ coefficient ∧ coefficient < 2 ^ 53 ∧
          -53 ≤ exponent ∧ exponent ≤ 971 := by
  have canonical := isCanonical_unpacked value
  cases parts : unpacked value with
  | zero sign =>
      have isZero := (isWhole_of_zero parts).mpr rfl
      rw [IsWhole, isValue, Option.some.injEq, Int.cast_zero] at isZero
      rw [isZero] at large
      norm_num at large
  | finite sign coefficient exponent positive =>
      rw [parts] at canonical
      obtain ⟨small, least, greatest, full⟩ := canonical
      have unit := two_zpow_pos exponent
      have isRatio := toRat?_eq parts
      rw [isValue, Option.some.injEq] at isRatio
      cases sign with
      | negative =>
          rw [if_pos (by decide)] at isRatio
          have magnitude : (0 : ℚ) ≤ coefficient * 2 ^ exponent :=
            mul_nonneg (Nat.cast_nonneg _) unit.le
          linarith
      | positive =>
          rw [if_neg (by decide)] at isRatio
          have notTiny : -53 ≤ exponent := by
            by_contra tiny
            have tinyUnit : (2 : ℚ) ^ exponent ≤ 2 ^ (-54 : ℤ) :=
              zpow_le_zpow_right₀ (by norm_num) (by omega)
            have smallCast : (coefficient : ℚ) < 2 ^ 53 := by exact_mod_cast small
            have product : (coefficient : ℚ) * 2 ^ exponent < 2 ^ 53 * 2 ^ (-54 : ℤ) :=
              mul_lt_mul smallCast tinyUnit unit (by norm_num)
            norm_num at product
            linarith
          exact ⟨coefficient, exponent, positive, rfl, isRatio, full.resolve_right (by omega),
            small, notTiny, greatest⟩
  | infinity sign | notANumber =>
      have finite : (unpacked value).isFinite = true := isFinite_of_toRat? isValue
      rw [parts] at finite
      cases finite

/-- A product of doubles that are not small is rounded once. -/
theorem withinRoundings_mul (isFirst : toRat? value = some first) (firstLarge : 1 / 2 ≤ first)
    (isSecond : toRat? other = some second) (secondLarge : 1 / 2 ≤ second) :
    WithinRoundings 1 (value * other) (first * second) := by
  obtain ⟨coefficient, exponent, positive, parts, isRatio, full, -, least, -⟩ :=
    exists_parts isFirst firstLarge
  obtain ⟨otherCoefficient, otherExponent, otherPositive, otherParts, isOtherRatio, otherFull, -,
    otherLeast, -⟩ := exists_parts isSecond secondLarge
  have result : value * other =
      packed (UnpackedFloat.mul Format.binary64 (unpacked value) (unpacked other)) := rfl
  have product : first * second =
      ((coefficient * otherCoefficient : ℕ) : ℚ) * 2 ^ (exponent + otherExponent) := by
    rw [isRatio, isOtherRatio, zpow_add₀ (by norm_num)]
    push_cast
    ring
  have unit := two_zpow_pos (exponent + otherExponent)
  rw [result, parts, otherParts]
  change WithinRoundings 1 (packed (roundWithAccuracy _ .positive _ _ .exact)) _
  refine withinRoundings_round .exact ?_ (by omega) product.symm.le ?_
  · exact full.trans (Nat.le_mul_of_pos_right _ otherPositive)
  · rw [product]
    exact mul_le_mul_of_nonneg_right (by linarith) unit.le

/-- A long coefficient is rounded without making it longer. -/
theorem withinRoundings_normalize {coefficient : ℕ} {exponent : ℤ} {number : ℚ}
    (full : 2 ^ 52 ≤ coefficient) (least : -1074 ≤ exponent)
    (isNumber : (coefficient : ℚ) * 2 ^ exponent = number) :
    WithinRoundings 1
      (packed (normalize Format.binary64 (coefficient : ℕ) exponent .positive)) number := by
  have long : 52 ≤ coefficient.log2 := (Nat.le_log2 (by omega)).mpr full
  have target : (exponent -
      Format.binary64.targetExponent (totalExponent coefficient exponent)).toNat = 0 := by
    rw [targetExponent_eq, totalExponent]
    omega
  rw [normalize_natCast (by omega)]
  unfold UnpackedFloat.round decreaseExponent
  simp only [target, Nat.shiftLeft_zero, Nat.cast_zero, sub_zero]
  refine withinRoundings_round .exact full least isNumber.le ?_
  rw [← isNumber]
  exact mul_le_mul_of_nonneg_right (by linarith) (two_zpow_pos exponent).le

/-- A sum of doubles that are not small is rounded once. -/
theorem withinRoundings_add (isFirst : toRat? value = some first) (firstLarge : 1 / 2 ≤ first)
    (isSecond : toRat? other = some second) (secondLarge : 1 / 2 ≤ second) :
    WithinRoundings 1 (value + other) (first + second) := by
  obtain ⟨coefficient, exponent, positive, parts, isRatio, full, -, least, -⟩ :=
    exists_parts isFirst firstLarge
  obtain ⟨otherCoefficient, otherExponent, otherPositive, otherParts, isOtherRatio, otherFull, -,
    otherLeast, -⟩ := exists_parts isSecond secondLarge
  have result : value + other =
      packed (UnpackedFloat.add Format.binary64 (unpacked value) (unpacked other)) := rfl
  have aligned := aligned_value .positive coefficient (min_le_left exponent otherExponent)
  have otherAligned :=
    aligned_value .positive otherCoefficient (min_le_right exponent otherExponent)
  simp only [Sign.apply, Int.cast_natCast] at aligned otherAligned
  rw [result, parts, otherParts]
  change WithinRoundings 1 (packed (normalize _
    ((coefficient <<< (exponent - min exponent otherExponent).toNat : ℕ) +
      (otherCoefficient <<< (otherExponent - min exponent otherExponent).toNat : ℕ)) _ _)) _
  rw [← Nat.cast_add]
  refine withinRoundings_normalize ?_ (by omega) ?_
  · refine le_add_right (full.trans ?_)
    rw [Nat.shiftLeft_eq]
    exact Nat.le_mul_of_pos_right _ (Nat.two_pow_pos _)
  · rw [Nat.cast_add, add_mul, aligned, otherAligned, isRatio, isOtherRatio]

/-- The quotient of two coefficients of 53 bits is computed with 53 more bits. -/
theorem divCore_eq {coefficient otherCoefficient : ℕ} {exponent otherExponent : ℤ}
    (bits : coefficient.log2 = 52) (otherBits : otherCoefficient.log2 = 52)
    (notSmall : -1021 ≤ exponent - otherExponent) :
    divCore Format.binary64 coefficient exponent otherCoefficient otherExponent =
      (coefficient * 2 ^ 53 / otherCoefficient, exponent - otherExponent - 53,
        accuracyOfFraction (coefficient * 2 ^ 53 % otherCoefficient) otherCoefficient) := by
  have target : min (exponent - otherExponent)
      (Format.binary64.targetExponent (totalExponent coefficient exponent -
        totalExponent otherCoefficient otherExponent)) = exponent - otherExponent - 53 := by
    rw [targetExponent_eq, totalExponent, totalExponent, bits, otherBits]
    omega
  have shift : (exponent - otherExponent - (exponent - otherExponent - 53)).toNat = 53 := by omega
  unfold divCore
  simp only [target, shift, Nat.shiftLeft_eq]

/-- The exponents of two doubles whose quotient is not small. -/
theorem exponent_of_quotient {coefficient otherCoefficient : ℕ} {exponent : ℤ}
    (small : coefficient < 2 ^ 53) (otherFull : 2 ^ 52 ≤ otherCoefficient)
    (large : 1 / 2 ≤ (coefficient : ℚ) / otherCoefficient * 2 ^ exponent) : -2 ≤ exponent := by
  by_contra tiny
  have tinyUnit : (2 : ℚ) ^ exponent ≤ 2 ^ (-3 : ℤ) :=
    zpow_le_zpow_right₀ (by norm_num) (by omega)
  have otherCast : (2 : ℚ) ^ 52 ≤ otherCoefficient := by exact_mod_cast otherFull
  have twice : (coefficient : ℚ) / otherCoefficient < 2 := by
    have smallCast : (coefficient : ℚ) < 2 ^ 53 := by exact_mod_cast small
    rw [div_lt_iff₀ (by linarith)]
    linarith
  have product := mul_lt_mul twice tinyUnit (two_zpow_pos exponent) zero_le_two
  norm_num at product
  linarith

/-- A quotient of doubles that are not small is rounded once, if it is not small either. -/
theorem withinRoundings_div (isFirst : toRat? value = some first) (firstLarge : 1 / 2 ≤ first)
    (isSecond : toRat? other = some second) (secondLarge : 1 / 2 ≤ second)
    (quotientLarge : 1 / 2 ≤ first / second) :
    WithinRoundings 1 (value / other) (first / second) := by
  obtain ⟨coefficient, exponent, positive, parts, isRatio, full, small, least, -⟩ :=
    exists_parts isFirst firstLarge
  obtain ⟨otherCoefficient, otherExponent, otherPositive, otherParts, isOtherRatio, otherFull,
    otherSmall, otherLeast, otherGreatest⟩ := exists_parts isSecond secondLarge
  have result : value / other =
      packed (UnpackedFloat.div Format.binary64 (unpacked value) (unpacked other)) := rfl
  have otherCastPositive : (0 : ℚ) < otherCoefficient := Nat.cast_pos.mpr otherPositive
  have quotient : first / second =
      coefficient / otherCoefficient * 2 ^ (exponent - otherExponent) := by
    rw [isRatio, isOtherRatio, zpow_sub₀ (by norm_num), mul_div_mul_comm]
  have notSmall : -2 ≤ exponent - otherExponent :=
    exponent_of_quotient small otherFull (quotient ▸ quotientLarge)
  have scaled : first / second = (coefficient * 2 ^ 53 : ℕ) / otherCoefficient *
      2 ^ (exponent - otherExponent - 53) := by
    have lengthened : (2 : ℚ) ^ (exponent - otherExponent) =
        2 ^ 53 * 2 ^ (exponent - otherExponent - 53) := by
      rw [← zpow_natCast, ← zpow_add₀ (by norm_num)]
      congr 1
      push_cast
      ring
    rw [quotient, lengthened]
    push_cast
    ring
  have lowUnit := two_zpow_pos (exponent - otherExponent - 53)
  rw [result, parts, otherParts]
  change WithinRoundings 1 (packed (let (m, e, accuracy) := divCore Format.binary64 _ _ _ _
    roundWithAccuracy _ .positive m e accuracy)) _
  rw [divCore_eq ((Nat.log2_eq_iff (by omega)).mpr ⟨full, small⟩)
    ((Nat.log2_eq_iff (by omega)).mpr ⟨otherFull, otherSmall⟩) (by omega)]
  refine withinRoundings_round _ ?_ (by omega) ?_ ?_
  · rw [Nat.le_div_iff_mul_le otherPositive]
    omega
  · rw [scaled]
    exact mul_le_mul_of_nonneg_right Nat.cast_div_le lowUnit.le
  · rw [scaled]
    refine mul_le_mul_of_nonneg_right ?_ lowUnit.le
    rw [div_le_iff₀ otherCastPositive]
    have next : coefficient * 2 ^ 53 ≤
        (coefficient * 2 ^ 53 / otherCoefficient + 1) * otherCoefficient :=
      (Nat.lt_mul_of_div_lt (Nat.lt_succ_self _) otherPositive).le
    exact_mod_cast next

end Operations

section Conversions

variable {numerator denominator : ℕ}

/-- A double by its bits, infinite if they are those of no finite double. -/
theorem ofBits_eq_packed {coefficient : ℕ} {exponent : ℤ} (positive : 0 < coefficient)
    (full : 2 ^ 52 ≤ coefficient) (small : coefficient < 2 ^ 53) (least : -1074 ≤ exponent)
    {bits : ℕ} (isBits : bits = (exponent + 1074).toNat * 2 ^ 52 + coefficient) :
    ((if bits < 2047 * 2 ^ 52 then some bits else none).map fun bits =>
        Float.ofBits (UInt64.ofNat bits)).getD infinity =
      packed (.finite .positive coefficient exponent positive) := by
  split
  next fits =>
    have canonical : IsCanonical (.finite .positive coefficient exponent positive) :=
      ⟨small, least, by omega, .inl full⟩
    have sameBits := toNat_bits_packed canonical
    have word : UInt64.ofNat bits =
        (packed (.finite .positive coefficient exponent positive)).toBits := by
      apply UInt64.toNat_inj.mp
      rw [sameBits, bitsOfParts, signPart, signNumber, magnitudeBits, UInt64.toNat_ofNat']
      omega
    rw [Option.map_some, Option.getD_some, word]
    exact ofBits_toBits _
  next overflow =>
    rw [Option.map_none, Option.getD_none, packed_of_overflow .positive (by omega), packed_infinity]

/-- A coefficient that may have carried to one bit more, by the bits of its double. -/
theorem withinRoundings_bits {rounded : ℕ} {unit : ℤ} {number : ℚ} (full : 2 ^ 52 ≤ rounded)
    (small : rounded ≤ 2 ^ 53) (least : -1074 ≤ unit)
    (close : |(rounded : ℚ) * 2 ^ unit - number| ≤ number / 2 ^ 52) :
    WithinRoundings 1
      (((if (unit + 1074).toNat * 2 ^ 52 + rounded < 2047 * 2 ^ 52 then
          some ((unit + 1074).toNat * 2 ^ 52 + rounded)
        else none).map fun bits => Float.ofBits (UInt64.ofNat bits)).getD infinity) number := by
  by_cases carries : rounded = 2 ^ 53
  · have carried : ((2 ^ 52 : ℕ) : ℚ) * 2 ^ (unit + 1) = (rounded : ℚ) * 2 ^ unit := by
      rw [carries, zpow_add_one₀ (by norm_num)]
      push_cast
      ring
    have bits : (unit + 1074).toNat * 2 ^ 52 + rounded =
        (unit + 1 + 1074).toNat * 2 ^ 52 + 2 ^ 52 := by omega
    rw [ofBits_eq_packed (by norm_num) le_rfl (by norm_num) (by omega) bits]
    exact withinRoundings_packed le_rfl (by norm_num) (by omega) (carried ▸ close)
  · rw [ofBits_eq_packed (by omega) full (by omega) least rfl]
    exact withinRoundings_packed full (by omega) least close

theorem roundRatio_bounds (numerator denominator : ℕ) :
    numerator / denominator ≤ roundRatio numerator denominator ∧
      roundRatio numerator denominator ≤ numerator / denominator + 1 := by
  unfold roundRatio
  dsimp only
  split
  · omega
  split
  · omega
  · omega

/-- A ratio counted in the unit of its last place: the whole number of units has 53 bits. -/
theorem units_bounds {unit : ℤ} {scaledNumerator scaledDenominator : ℕ} {ratio : ℚ}
    (positive : 0 < scaledDenominator)
    (isScaled : (scaledNumerator : ℚ) / scaledDenominator = ratio / 2 ^ unit)
    (lower : 2 ^ (unit + 52) ≤ ratio) (upper : ratio < 2 ^ (unit + 53)) :
    2 ^ 52 ≤ scaledNumerator / scaledDenominator ∧
      scaledNumerator / scaledDenominator < 2 ^ 53 ∧
      ((scaledNumerator / scaledDenominator : ℕ) : ℚ) * 2 ^ unit ≤ ratio ∧
      ratio ≤ ((scaledNumerator / scaledDenominator : ℕ) + 1) * 2 ^ unit := by
  have unitPositive := two_zpow_pos unit
  have positiveCast : (0 : ℚ) < scaledDenominator := Nat.cast_pos.mpr positive
  rw [zpow_add₀ (by norm_num), mul_comm, ← le_div_iff₀ unitPositive, ← isScaled,
    le_div_iff₀ positiveCast] at lower
  rw [zpow_add₀ (by norm_num), mul_comm, ← div_lt_iff₀ unitPositive, ← isScaled,
    div_lt_iff₀ positiveCast] at upper
  refine ⟨?_, ?_, ?_, ?_⟩
  · rw [Nat.le_div_iff_mul_le positive]
    exact_mod_cast lower
  · rw [Nat.div_lt_iff_lt_mul positive]
    exact_mod_cast upper
  · rw [← le_div_iff₀ unitPositive, ← isScaled]
    exact Nat.cast_div_le
  · rw [← div_le_iff₀ unitPositive, ← isScaled, div_le_iff₀ positiveCast]
    have next : scaledNumerator ≤ (scaledNumerator / scaledDenominator + 1) * scaledDenominator :=
      (Nat.lt_mul_of_div_lt (Nat.lt_succ_self _) positive).le
    exact_mod_cast next

/-- A ratio that is not below one is rounded once. -/
theorem withinRoundings_ofRatio (denominatorPositive : 0 < denominator)
    (large : denominator ≤ numerator) :
    WithinRoundings 1 ((ofRatio? false numerator denominator).getD infinity)
      ((numerator : ℚ) / denominator) := by
  have numeratorPositive : 0 < numerator := by omega
  have denominatorCast : (0 : ℚ) < denominator := Nat.cast_pos.mpr denominatorPositive
  have ratioPositive : (0 : ℚ) < (numerator : ℚ) / denominator :=
    div_pos (Nat.cast_pos.mpr numeratorPositive) denominatorCast
  have logNonnegative : 0 ≤ Int.log 2 ((numerator : ℚ) / denominator) := by
    rw [← Int.zpow_le_iff_le_log (by norm_num) ratioPositive, zpow_zero,
      le_div_iff₀ denominatorCast, one_mul]
    exact_mod_cast large
  obtain ⟨unit, isUnit⟩ : ∃ unit, Int.log 2 ((numerator : ℚ) / denominator) = unit + 52 :=
    ⟨_, (sub_add_cancel _ 52).symm⟩
  have maximum : max (unit + 52 - 52) (-1074) = unit := by omega
  have lower : ((2 : ℕ) : ℚ) ^ (unit + 52) ≤ (numerator : ℚ) / denominator :=
    (Int.zpow_le_iff_le_log (by norm_num) ratioPositive).mpr isUnit.ge
  have upper : (numerator : ℚ) / denominator < ((2 : ℕ) : ℚ) ^ (unit + 53) :=
    (Int.lt_zpow_iff_log_lt (by norm_num) ratioPositive).mpr (by omega)
  have scaledPositive : 0 < denominator * Nat.pow 2 unit.toNat :=
    Nat.mul_pos denominatorPositive (Nat.pow_pos (by norm_num))
  obtain ⟨full, small, below, above⟩ :=
    units_bounds scaledPositive (ratio_div_zpow (by norm_num) unit) lower upper
  obtain ⟨atLeast, atMost⟩ := roundRatio_bounds (numerator * Nat.pow 2 (-unit).toNat)
    (denominator * Nat.pow 2 unit.toNat)
  have close := close_of_units full below above atLeast atMost
  unfold ofRatio? nearestBits?
  rw [if_neg numeratorPositive.ne', binaryExponent_eq_log numeratorPositive denominatorPositive,
    isUnit, maximum]
  dsimp only
  generalize roundRatio (numerator * Nat.pow 2 (-unit).toNat)
    (denominator * Nat.pow 2 unit.toNat) = rounded at atLeast atMost close ⊢
  simp only [Bool.false_eq_true, if_false, Nat.pow_eq]
  exact withinRoundings_bits (full.trans atLeast) (atMost.trans small) (by omega) close

/-- A positive whole number is rounded once. -/
theorem withinRoundings_ofInt {number : ℕ} (positive : 0 < number) :
    WithinRoundings 1 (ofInt number) number := by
  have rounded := withinRoundings_ofRatio zero_lt_one (show 1 ≤ number from positive)
  rw [Nat.cast_one, div_one] at rounded
  have isRatio : ofInt number = (ofRatio? false number 1).getD infinity := by
    have nonnegative : ¬ (number : ℤ) < 0 := by omega
    unfold ofInt ofInt?
    rw [decide_eq_false nonnegative, if_neg nonnegative, Int.natAbs_natCast]
  rwa [isRatio]

end Conversions

end Binary64

end ExprCalculus
