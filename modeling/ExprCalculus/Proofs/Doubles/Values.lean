import ExprCalculus.Proofs.Doubles.RelativeError

/-!
# The numbers that doubles are

Comparing finite doubles is comparing the numbers they are, and none of them is beyond the
largest double.  Infinity lies above all of them, and arithmetic with it stays infinite.
-/

namespace ExprCalculus

namespace Binary64

open Float.Model Float.Model.UnpackedFloat

section Order

variable {value other : Float} {number second : ℚ}

/-- The coefficient and the exponent of a finite double, also of a zero. -/
structure IsParts (sign : Sign) (coefficient : ℕ) (exponent : ℤ) (value : Float) (number : ℚ) :
    Prop where
  small : coefficient < 2 ^ 53
  least : -1074 ≤ exponent
  greatest : exponent ≤ 971
  full : 2 ^ 52 ≤ coefficient ∨ exponent = -1074
  defined : value.isNaN = false
  isRank : rank value = sign.apply ((exponent + 1074).toNat * 2 ^ 52 + coefficient : ℕ)
  isNumber : number = (sign.apply (coefficient : ℤ) : ℤ) * 2 ^ exponent

theorem exists_isParts (isValue : toRat? value = some number) :
    ∃ sign coefficient exponent, IsParts sign coefficient exponent value number := by
  have canonical := isCanonical_unpacked value
  cases parts : unpacked value with
  | zero sign =>
      obtain ⟨defined, isRank⟩ := rank_of_zero parts
      have isZero := (isWhole_of_zero parts).mpr rfl
      rw [IsWhole, isValue, Option.some.injEq, Int.cast_zero] at isZero
      refine ⟨.positive, 0, -1074, by norm_num, le_rfl, by norm_num, .inr rfl, defined, isRank, ?_⟩
      rw [isZero, Sign.apply, Nat.cast_zero, Int.cast_zero, zero_mul]
  | finite sign coefficient exponent positive =>
      rw [parts] at canonical
      obtain ⟨small, least, greatest, full⟩ := canonical
      have isRatio := toRat?_eq parts
      rw [isValue, Option.some.injEq] at isRatio
      refine ⟨sign, coefficient, exponent, small, least, greatest, full,
        (abs_rank_of_finite parts).1, ?_, ?_⟩
      · rw [rank, parts, rankOfParts, magnitudeBits]
        rfl
      · rw [isRatio]
        cases sign with
        | negative => rw [if_pos (by decide), Sign.apply, Int.cast_neg, neg_mul, Int.cast_natCast]
        | positive => rw [if_neg (by decide), Sign.apply, Int.cast_natCast]
  | infinity sign | notANumber =>
      have finite : (unpacked value).isFinite = true := isFinite_of_toRat? isValue
      rw [parts] at finite
      cases finite

variable {sign otherSign : Sign} {coefficient otherCoefficient : ℕ} {exponent otherExponent : ℤ}

/-- Larger bits are a larger magnitude. -/
theorem IsParts.magnitude_lt (parts : IsParts sign coefficient exponent value number)
    (otherParts : IsParts otherSign otherCoefficient otherExponent other second)
    (less : (exponent + 1074).toNat * 2 ^ 52 + coefficient <
      (otherExponent + 1074).toNat * 2 ^ 52 + otherCoefficient) :
    (coefficient : ℚ) * 2 ^ exponent < otherCoefficient * 2 ^ otherExponent := by
  obtain ⟨small, least, -, full, -⟩ := parts
  obtain ⟨otherSmall, otherLeast, -, otherFull, -⟩ := otherParts
  have unit := two_zpow_pos exponent
  rcases lt_trichotomy exponent otherExponent with lower | rfl | higher
  · have smallCast : (coefficient : ℚ) < 2 ^ 53 := by exact_mod_cast small
    have fullCast : (2 : ℚ) ^ 52 ≤ otherCoefficient := by
      exact_mod_cast otherFull.resolve_right (by omega)
    calc (coefficient : ℚ) * 2 ^ exponent < 2 ^ 53 * 2 ^ exponent :=
          mul_lt_mul_of_pos_right smallCast unit
      _ = 2 ^ 52 * 2 ^ (exponent + 1) := by
          rw [zpow_add_one₀ (by norm_num)]
          ring
      _ ≤ otherCoefficient * 2 ^ otherExponent :=
          mul_le_mul fullCast (zpow_le_zpow_right₀ (by norm_num) lower) (two_zpow_pos _).le
            (Nat.cast_nonneg _)
  · have smaller : coefficient < otherCoefficient := by omega
    exact mul_lt_mul_of_pos_right (by exact_mod_cast smaller) unit
  · omega

/-- Equal bits are an equal magnitude. -/
theorem IsParts.magnitude_eq (parts : IsParts sign coefficient exponent value number)
    (otherParts : IsParts otherSign otherCoefficient otherExponent other second)
    (same : (exponent + 1074).toNat * 2 ^ 52 + coefficient =
      (otherExponent + 1074).toNat * 2 ^ 52 + otherCoefficient) :
    (coefficient : ℚ) * 2 ^ exponent = otherCoefficient * 2 ^ otherExponent := by
  obtain ⟨small, least, -, full, -⟩ := parts
  obtain ⟨otherSmall, otherLeast, -, otherFull, -⟩ := otherParts
  obtain rfl : exponent = otherExponent := by omega
  obtain rfl : coefficient = otherCoefficient := by omega
  rfl

theorem IsParts.magnitude_lt_iff (parts : IsParts sign coefficient exponent value number)
    (otherParts : IsParts otherSign otherCoefficient otherExponent other second) :
    (exponent + 1074).toNat * 2 ^ 52 + coefficient <
        (otherExponent + 1074).toNat * 2 ^ 52 + otherCoefficient ↔
      (coefficient : ℚ) * 2 ^ exponent < otherCoefficient * 2 ^ otherExponent := by
  refine ⟨parts.magnitude_lt otherParts, fun less => ?_⟩
  by_contra notLess
  rcases (not_lt.mp notLess).lt_or_eq with greater | same
  · exact less.not_gt (otherParts.magnitude_lt parts greater)
  · exact less.ne' (otherParts.magnitude_eq parts same)

theorem IsParts.magnitude_pos_iff (parts : IsParts sign coefficient exponent value number) :
    0 < (exponent + 1074).toNat * 2 ^ 52 + coefficient ↔ (0 : ℚ) < coefficient * 2 ^ exponent := by
  obtain ⟨-, least, -, full, -⟩ := parts
  rw [mul_pos_iff_of_pos_right (two_zpow_pos exponent), Nat.cast_pos]
  omega

/-- Comparing finite doubles is comparing the numbers they are. -/
theorem lt_iff_of_toRat (isValue : toRat? value = some number)
    (isOther : toRat? other = some second) : value < other ↔ number < second := by
  obtain ⟨sign, coefficient, exponent, parts⟩ := exists_isParts isValue
  obtain ⟨otherSign, otherCoefficient, otherExponent, otherParts⟩ := exists_isParts isOther
  have order := parts.magnitude_lt_iff otherParts
  have reverse := otherParts.magnitude_lt_iff parts
  have positive := parts.magnitude_pos_iff
  have otherPositive := otherParts.magnitude_pos_iff
  have magnitude : (0 : ℚ) ≤ coefficient * 2 ^ exponent :=
    mul_nonneg (Nat.cast_nonneg _) (two_zpow_pos exponent).le
  have otherMagnitude : (0 : ℚ) ≤ otherCoefficient * 2 ^ otherExponent :=
    mul_nonneg (Nat.cast_nonneg _) (two_zpow_pos otherExponent).le
  obtain ⟨bits, isBits⟩ : ∃ bits, (exponent + 1074).toNat * 2 ^ 52 + coefficient = bits := ⟨_, rfl⟩
  obtain ⟨otherBits, isOtherBits⟩ :
      ∃ bits, (otherExponent + 1074).toNat * 2 ^ 52 + otherCoefficient = bits := ⟨_, rfl⟩
  rw [isBits] at order reverse positive
  rw [isOtherBits] at order reverse otherPositive
  rw [lt_iff, parts.isRank, otherParts.isRank, parts.isNumber, otherParts.isNumber, isBits,
    isOtherBits]
  simp only [parts.defined, otherParts.defined, true_and]
  cases sign <;> cases otherSign <;>
    simp only [Sign.apply, Int.cast_neg, Int.cast_natCast, neg_mul, neg_lt_neg_iff, Nat.cast_lt]
  · exact reverse
  · constructor
    · intro less
      by_contra notLess
      have none : ¬ 0 < bits ∧ ¬ 0 < otherBits := by
        rw [positive, otherPositive]
        constructor <;> linarith
      omega
    · intro less
      by_contra notLess
      have none : ¬ (0 : ℚ) < coefficient * 2 ^ exponent ∧
          ¬ (0 : ℚ) < otherCoefficient * 2 ^ otherExponent := by
        rw [← positive, ← otherPositive]
        omega
      linarith
  · exact iff_of_false (by omega) (by linarith)
  · exact order

theorem largestNumber_eq : largestNumber = (2 ^ 53 - 1) * 2 ^ 971 := by
  decide +kernel

theorem two_pow_le_largestNumber : 2 ^ 31 ≤ largestNumber := by
  decide +kernel

/-- No finite double is beyond the largest one. -/
theorem le_largestNumber (isValue : toRat? value = some number) :
    number ≤ (largestNumber : ℚ) := by
  obtain ⟨sign, coefficient, exponent, parts⟩ := exists_isParts isValue
  have magnitude : (0 : ℚ) ≤ coefficient * 2 ^ exponent :=
    mul_nonneg (Nat.cast_nonneg _) (two_zpow_pos exponent).le
  have bounded : (coefficient : ℚ) * 2 ^ exponent ≤ largestNumber := by
    have smallCast : (coefficient : ℚ) ≤ ((2 ^ 53 - 1 : ℕ) : ℚ) :=
      Nat.cast_le.mpr (Nat.le_sub_one_of_lt parts.small)
    calc (coefficient : ℚ) * 2 ^ exponent ≤ ((2 ^ 53 - 1 : ℕ) : ℚ) * 2 ^ (971 : ℤ) :=
          mul_le_mul smallCast (zpow_le_zpow_right₀ (by norm_num) parts.greatest)
            (two_zpow_pos _).le (Nat.cast_nonneg _)
      _ = largestNumber := by
          rw [largestNumber_eq, Nat.cast_mul, Nat.cast_pow 2 971, Nat.cast_ofNat, zpow_ofNat]
  rw [parts.isNumber]
  cases sign with
  | negative =>
      rw [Sign.apply, Int.cast_neg, neg_mul, Int.cast_natCast]
      have largestNonnegative : (0 : ℚ) ≤ largestNumber := Nat.cast_nonneg _
      linarith
  | positive => rwa [Sign.apply, Int.cast_natCast]

end Order

section Infinity

variable {value : Float} {number : ℚ}

theorem unpacked_infinity : unpacked infinity = .infinity .positive :=
  rfl

theorem rank_infinity : infinity.isNaN = false ∧ rank infinity = 2047 * 2 ^ 52 := by
  rw [isNaN_eq_false, rank, unpacked_infinity]
  exact ⟨(fun undefined => by cases undefined), rfl⟩

theorem isInf_infinity : infinity.isInf = true := by
  decide +kernel

/-- Infinity is above every finite double. -/
theorem lt_infinity (isValue : toRat? value = some number) : value < infinity := by
  obtain ⟨sign, coefficient, exponent, parts⟩ := exists_isParts isValue
  obtain ⟨small, -, greatest, full, defined, isRank, -⟩ := parts
  rw [lt_iff, isRank, rank_infinity.2]
  refine ⟨defined, rank_infinity.1, ?_⟩
  cases sign <;> simp only [Sign.apply] <;> omega

theorem not_isInf (isValue : toRat? value = some number) : value.isInf = false := by
  cases parts : unpacked value with
  | infinity sign | notANumber =>
      have finite : (unpacked value).isFinite = true := isFinite_of_toRat? isValue
      rw [parts] at finite
      cases finite
  | zero sign | finite sign coefficient exponent positive =>
      change (unpacked value).isInf = false
      rw [parts]
      rfl

end Infinity

section Products

variable {value other : Float} {number second : ℚ} {roundings more : ℕ}

theorem slack_pow_le_add (few : roundings ≤ 2 ^ 50) :
    slack ^ roundings ≤ 1 + roundings / 2 ^ 50 := by
  induction roundings with
  | zero => norm_num
  | succ roundings ih =>
      have fewCast : (roundings : ℚ) ≤ 2 ^ 50 := by exact_mod_cast (Nat.le_succ _).trans few
      calc slack ^ (roundings + 1) = slack ^ roundings * slack := pow_succ _ _
        _ ≤ (1 + roundings / 2 ^ 50) * slack :=
          mul_le_mul_of_nonneg_right (ih (by omega)) (zero_le_one.trans one_le_slack)
        _ ≤ 1 + (roundings + 1 : ℕ) / 2 ^ 50 := by
          rw [slack]
          push_cast
          linarith

theorem slack_pow_le_two (few : roundings ≤ 2 ^ 50) : slack ^ roundings ≤ 2 := by
  have fewCast : (roundings : ℚ) ≤ 2 ^ 50 := by exact_mod_cast few
  refine (slack_pow_le_add few).trans ?_
  linarith

/-- A few roundings of a number that is at least one leave at least a half. -/
theorem half_le_of_below (few : roundings ≤ 2 ^ 50) (large : 1 ≤ number)
    (below : number ≤ second * slack ^ roundings) : 1 / 2 ≤ second := by
  by_contra small
  have half := mul_lt_mul_of_pos_right (not_le.mp small) (slack_pow_pos roundings)
  linarith [slack_pow_le_two few]

theorem infinity_mul (isSecond : toRat? other = some second) (large : 1 / 2 ≤ second) :
    infinity * other = infinity := by
  obtain ⟨coefficient, exponent, positive, parts, -⟩ := exists_parts isSecond large
  change packed (UnpackedFloat.mul Format.binary64 (unpacked infinity) (unpacked other)) = _
  rw [unpacked_infinity, parts]
  exact packed_infinity

theorem mul_infinity (isValue : toRat? value = some number) (large : 1 / 2 ≤ number) :
    value * infinity = infinity := by
  obtain ⟨coefficient, exponent, positive, parts, -⟩ := exists_parts isValue large
  change packed (UnpackedFloat.mul Format.binary64 (unpacked value) (unpacked infinity)) = _
  rw [unpacked_infinity, parts]
  exact packed_infinity

theorem infinity_mul_infinity : infinity * infinity = infinity := by
  change packed (UnpackedFloat.mul Format.binary64 (unpacked infinity) (unpacked infinity)) = _
  rw [unpacked_infinity]
  exact packed_infinity

theorem infinity_div (isSecond : toRat? other = some second) (large : 1 / 2 ≤ second) :
    infinity / other = infinity := by
  obtain ⟨coefficient, exponent, positive, parts, -⟩ := exists_parts isSecond large
  change packed (UnpackedFloat.div Format.binary64 (unpacked infinity) (unpacked other)) = _
  rw [unpacked_infinity, parts]
  exact packed_infinity

/-- The product of two doubles that are known up to some roundings, of numbers that are at
least one. -/
theorem WithinRoundings.mul (within : WithinRoundings roundings value number)
    (otherWithin : WithinRoundings more other second) (large : 1 ≤ number)
    (otherLarge : 1 ≤ second) (few : roundings ≤ 2 ^ 50) (fewMore : more ≤ 2 ^ 50) :
    WithinRoundings (1 + (roundings + more)) (value * other) (number * second) := by
  have factor := slack_pow_pos roundings
  have otherFactor := slack_pow_pos more
  have tooLarge (beyond : (largestNumber : ℚ) < number * slack ^ roundings ∨
      (largestNumber : ℚ) < second * slack ^ more) :
      (largestNumber : ℚ) < number * second * slack ^ (1 + (roundings + more)) := by
    have split : number * second * slack ^ (1 + (roundings + more)) =
        number * slack ^ roundings * (second * slack ^ more) * slack := by ring
    have first : 1 ≤ number * slack ^ roundings := one_le_mul_of_one_le_of_one_le large
      (one_le_slack_pow roundings)
    have last : 1 ≤ second * slack ^ more := one_le_mul_of_one_le_of_one_le otherLarge
      (one_le_slack_pow more)
    have product : (largestNumber : ℚ) < number * slack ^ roundings * (second * slack ^ more) := by
      rcases beyond with beyond | beyond
      · exact beyond.trans_le (le_mul_of_one_le_right (by linarith) last)
      · exact beyond.trans_le (le_mul_of_one_le_left (by linarith) first)
    rw [split]
    exact product.trans_le (le_mul_of_one_le_right (by positivity) one_le_slack)
  cases within with
  | finite isValue below above =>
      have half := half_le_of_below few large below
      cases otherWithin with
      | finite isOther otherBelow otherAbove =>
          have otherHalf := half_le_of_below fewMore otherLarge otherBelow
          refine (withinRoundings_mul isValue half isOther otherHalf).trans ?_ ?_
          · rw [pow_add, mul_mul_mul_comm]
            exact mul_le_mul below otherBelow (by linarith) (by positivity)
          · rw [pow_add, mul_mul_mul_comm]
            exact mul_le_mul above otherAbove (by linarith) (by positivity)
      | infinite isInfinite beyond =>
          exact .infinite (isInfinite ▸ mul_infinity isValue half) (tooLarge (.inr beyond))
  | infinite isInfinite beyond =>
      refine .infinite ?_ (tooLarge (.inl beyond))
      rw [isInfinite]
      cases otherWithin with
      | finite isOther otherBelow _ =>
          exact infinity_mul isOther (half_le_of_below fewMore otherLarge otherBelow)
      | infinite isInfinite _ => exact isInfinite ▸ infinity_mul_infinity

/-- A double that is infinite after some roundings. -/
theorem WithinRoundings.eq_infinity (within : WithinRoundings roundings value number)
    (isInfinite : value.isInf = true) :
    value = infinity ∧ largestNumber < number * slack ^ roundings := by
  cases within with
  | finite isValue below above =>
      rw [not_isInf isValue] at isInfinite
      cases isInfinite
  | infinite isInfinite large => exact ⟨isInfinite, large⟩

/-- A number that is well below the largest double does not become infinite. -/
theorem WithinRoundings.isInf_eq_false (within : WithinRoundings roundings value number)
    (small : number * slack ^ roundings ≤ largestNumber) : value.isInf = false := by
  rw [← Bool.not_eq_true]
  exact fun isInfinite => (within.eq_infinity isInfinite).2.not_ge small

/-- A number that is well beyond the largest double becomes infinite. -/
theorem WithinRoundings.isInf_eq_true (within : WithinRoundings roundings value number)
    (large : largestNumber * slack ^ roundings < number) : value.isInf = true := by
  cases within with
  | finite isValue below above =>
      have atMost := mul_le_mul_of_nonneg_right (le_largestNumber isValue)
        (slack_pow_pos roundings).le
      exact absurd (below.trans atMost) large.not_ge
  | infinite isInfinite beyond => rw [isInfinite, isInf_infinity]

/-- The exact value of a double that is known up to some roundings and finite. -/
theorem WithinRoundings.exists_exact (within : WithinRoundings roundings value number)
    (isFinite : value.isInf = false) :
    ∃ exact, toRat? value = some exact ∧ number ≤ exact * slack ^ roundings ∧
      exact ≤ number * slack ^ roundings := by
  cases within with
  | finite isValue below above => exact ⟨_, isValue, below, above⟩
  | infinite isInfinite beyond =>
      rw [isInfinite, isInf_infinity] at isFinite
      cases isFinite

/-- The quotient of two finite doubles that are known up to some roundings, of numbers whose
quotient is at least one. -/
theorem WithinRoundings.div (within : WithinRoundings roundings value number)
    (otherWithin : WithinRoundings more other second) (isFinite : value.isInf = false)
    (otherFinite : other.isInf = false) (otherLarge : 1 ≤ second) (large : 1 ≤ number / second)
    (few : roundings + more ≤ 2 ^ 50) :
    WithinRoundings (1 + (roundings + more)) (value / other) (number / second) := by
  obtain ⟨exact, isValue, below, above⟩ := within.exists_exact isFinite
  obtain ⟨otherExact, isOther, otherBelow, otherAbove⟩ := otherWithin.exists_exact otherFinite
  have secondPositive : 0 < second := by linarith
  have factor := slack_pow_pos roundings
  have otherFactor := slack_pow_pos more
  have otherHalf := half_le_of_below (by omega) otherLarge otherBelow
  have otherPositive : 0 < otherExact := by linarith
  have numberLarge : 1 ≤ number := by
    rw [le_div_iff₀ secondPositive, one_mul] at large
    linarith
  have half := half_le_of_below (by omega) numberLarge below
  have quotientBelow : number / second ≤ exact / otherExact * slack ^ (roundings + more) := by
    rw [pow_add, div_mul_eq_mul_div, div_le_div_iff₀ secondPositive otherPositive]
    calc number * otherExact ≤ exact * slack ^ roundings * (second * slack ^ more) :=
          mul_le_mul below otherAbove otherPositive.le (by positivity)
      _ = exact * (slack ^ roundings * slack ^ more) * second := by ring
  have quotientAbove : exact / otherExact ≤ number / second * slack ^ (roundings + more) := by
    rw [pow_add, div_mul_eq_mul_div, div_le_div_iff₀ otherPositive secondPositive]
    calc exact * second ≤ number * slack ^ roundings * (otherExact * slack ^ more) :=
          mul_le_mul above otherBelow secondPositive.le (by positivity)
      _ = number * (slack ^ roundings * slack ^ more) * otherExact := by ring
  exact (withinRoundings_div isValue half isOther otherHalf
    (half_le_of_below few large quotientBelow)).trans quotientBelow quotientAbove

end Products

end Binary64

end ExprCalculus
