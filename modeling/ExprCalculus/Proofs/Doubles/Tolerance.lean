import ExprCalculus.Evaluation.Doubles
import ExprCalculus.Proofs.Doubles.Rounding
import ExprCalculus.Proofs.Simplification.Collection

/-!
# Tolerance of doubles

With a tolerance above zero and at most one, no double is near both one and zero,
and a double that is not negative is not near minus one, since the sum of such a
double and one is rounded to a double that is at least one.
-/

namespace ExprCalculus

namespace Binary64

open Float.Model Float.Model.UnpackedFloat

section Units

variable {sign : Sign} {parts : UnpackedFloat}

def unit (sign : Sign) : UnpackedFloat :=
  .finite sign (2 ^ 52) (-52) (by decide)

theorem unpacked_one : unpacked (ofInt 1) = unit .positive :=
  rfl

theorem neg_ofInt_one : -ofInt 1 = ofInt (-1) := by
  decide

theorem mul_unit (canonical : IsCanonical parts) :
    UnpackedFloat.mul Format.binary64 parts (unit .positive) = parts := by
  cases parts with
  | notANumber => rfl
  | infinity sign | zero sign => cases sign <;> rfl
  | finite sign coefficient exponent positive =>
      have sameSign : sign * Sign.positive = sign := by cases sign <;> rfl
      change roundWithAccuracy Format.binary64 (sign * Sign.positive) (coefficient * 2 ^ 52)
        (exponent - (52 : Nat)) .exact = _
      rw [sameSign]
      exact roundWithAccuracy_exact canonical 52

theorem unit_mul (canonical : IsCanonical parts) :
    UnpackedFloat.mul Format.binary64 (unit .positive) parts = parts := by
  cases parts with
  | notANumber => rfl
  | infinity sign | zero sign => cases sign <;> rfl
  | finite sign coefficient exponent positive =>
      have sameSign : Sign.positive * sign = sign := by cases sign <;> rfl
      change roundWithAccuracy Format.binary64 (Sign.positive * sign) (2 ^ 52 * coefficient)
        (-(52 : Nat) + exponent) .exact = _
      rw [sameSign, mul_comm, add_comm]
      exact roundWithAccuracy_exact canonical 52

theorem neg_unit_mul_neg (canonical : IsCanonical parts) :
    UnpackedFloat.mul Format.binary64 (unit .negative) parts.neg = parts := by
  cases parts with
  | notANumber => rfl
  | infinity sign | zero sign => cases sign <;> rfl
  | finite sign coefficient exponent positive =>
      have sameSign : Sign.negative * -sign = sign := by cases sign <;> rfl
      change roundWithAccuracy Format.binary64 (Sign.negative * -sign) (2 ^ 52 * coefficient)
        (-(52 : Nat) + exponent) .exact = _
      rw [sameSign, mul_comm, add_comm]
      exact roundWithAccuracy_exact canonical 52

theorem mul_one_eq (value : Float) : value * ofInt 1 = value := by
  change packed (UnpackedFloat.mul Format.binary64 (unpacked value) (unit .positive)) = value
  rw [mul_unit (isCanonical_unpacked value), packed_unpacked]

theorem one_mul_eq (value : Float) : ofInt 1 * value = value := by
  change packed (UnpackedFloat.mul Format.binary64 (unit .positive) (unpacked value)) = value
  rw [unit_mul (isCanonical_unpacked value), packed_unpacked]

theorem neg_one_mul_neg_eq (value : Float) : -ofInt 1 * -value = value := by
  rw [neg_ofInt_one]
  change packed (UnpackedFloat.mul Format.binary64 (unit .negative) (unpacked (-value))) = value
  rw [unpacked_neg, neg_unit_mul_neg (isCanonical_unpacked value), packed_unpacked]

theorem sub_zero_eq (value : Float) : value - ofInt 0 = value := by
  change packed (UnpackedFloat.sub Format.binary64 (unpacked value) (.zero .positive)) = value
  have unchanged : UnpackedFloat.sub Format.binary64 (unpacked value) (.zero .positive) =
      unpacked value := by
    cases unpacked value with
    | zero sign => cases sign <;> rfl
    | _ => rfl
  rw [unchanged, packed_unpacked]

end Units

section Successor

theorem packed_of_overflow {coefficient : Nat} {exponent : Int} {positive : 0 < coefficient}
    (sign : Sign) (large : 972 ≤ exponent) :
    packed (.finite sign coefficient exponent positive) = packed (.infinity sign) := by
  have bits : UnpackedFloat.pack Format.binary64 (.finite sign coefficient exponent positive) =
      UnpackedFloat.pack Format.binary64 (.infinity sign) := by
    have infinite : 2 ^ Format.binary64.exponentBits ≤
        (exponent + Format.binary64.exponentBias +
          Format.binary64.mantissaBitsWithoutImplicit).toNat + 1 := by
      change 2 ^ 11 ≤ (exponent + (1023 : Nat) + (52 : Nat)).toNat + 1
      omega
    unfold UnpackedFloat.pack
    exact if_pos infinite
  unfold packed Float.Model.pack
  simp only [bits]

/-- Numbers with 53 bits that are not below one are packed as doubles that are not. -/
theorem one_le_rank_packed {coefficient : Nat} {exponent : Int} {positive : 0 < coefficient}
    (normal : 2 ^ 52 ≤ coefficient) (small : coefficient < 2 ^ 53) (large : -52 ≤ exponent) :
    (packed (.finite .positive coefficient exponent positive)).isNaN = false ∧
      rank (ofInt 1) ≤ rank (packed (.finite .positive coefficient exponent positive)) := by
  rw [isNaN_eq_false, rank, rank, unpacked_one]
  by_cases overflow : 972 ≤ exponent
  · have canonical : IsCanonical (.infinity .positive) := trivial
    rw [packed_of_overflow .positive overflow, unpacked_packed canonical]
    exact ⟨by simp, by decide⟩
  · have canonical : IsCanonical (.finite .positive coefficient exponent positive) :=
      ⟨small, by omega, by omega, .inl normal⟩
    rw [unpacked_packed canonical]
    refine ⟨by simp, ?_⟩
    change ((1022 * 2 ^ 52 + 2 ^ 52 : Nat) : Int) ≤
      (((exponent + 1074).toNat * 2 ^ 52 + coefficient : Nat) : Int)
    omega

theorem normalize_natCast {coefficient : Nat} (positive : 0 < coefficient) (exponent : Int)
    (zeroSign : Sign) :
    normalize Format.binary64 coefficient exponent zeroSign =
      round Format.binary64 .positive coefficient exponent := by
  have greater : compare (coefficient : Int) 0 = .gt :=
    compare_gt_iff_gt.mpr (Int.natCast_pos.mpr positive)
  unfold UnpackedFloat.normalize
  rw [greater]
  rfl

theorem totalExponent_le {coefficient sum : Nat} {exponent low : Int} (positive : 0 < coefficient)
    (lower : low ≤ exponent) (least : coefficient * 2 ^ (exponent - low).toNat ≤ sum) :
    totalExponent coefficient exponent ≤ totalExponent sum low := by
  obtain ⟨amount, isAmount⟩ : ∃ amount, (exponent - low).toNat = amount := ⟨_, rfl⟩
  rw [isAmount] at least
  have shifted : totalExponent (coefficient * 2 ^ amount) (exponent - amount) =
      totalExponent coefficient exponent := totalExponent_mul_two_pow positive amount
  rw [show exponent - amount = low by omega] at shifted
  have shiftedPositive : 0 < coefficient * 2 ^ amount := Nat.mul_pos positive (Nat.two_pow_pos _)
  have bits : (coefficient * 2 ^ amount).log2 ≤ sum.log2 :=
    (Nat.le_log2 (by omega)).mpr ((Nat.log2_self_le (by omega)).trans least)
  rw [← shifted, totalExponent, totalExponent]
  omega

/-- A positive finite double minus a negative one, before rounding: the sum of the
magnitudes is not below either. -/
theorem sub_opposite {first second : Nat} (firstExponent secondExponent : Int)
    (firstPositive : 0 < first) (secondPositive : 0 < second) :
    ∃ sum low, 0 < sum ∧ totalExponent first firstExponent ≤ totalExponent sum low ∧
      totalExponent second secondExponent ≤ totalExponent sum low ∧
      UnpackedFloat.sub Format.binary64 (.finite .positive first firstExponent firstPositive)
        (.finite .negative second secondExponent secondPositive) =
          round Format.binary64 .positive sum low := by
  obtain ⟨low, isLow⟩ : ∃ low, min firstExponent secondExponent = low := ⟨_, rfl⟩
  have firstShifted : 0 < first * 2 ^ (firstExponent - low).toNat :=
    Nat.mul_pos firstPositive (Nat.two_pow_pos _)
  refine ⟨first * 2 ^ (firstExponent - low).toNat + second * 2 ^ (secondExponent - low).toNat, low,
    by omega, totalExponent_le firstPositive (by omega) (Nat.le_add_right _ _),
    totalExponent_le secondPositive (by omega) (Nat.le_add_left _ _), ?_⟩
  rw [← normalize_natCast (by omega) low .positive]
  change normalize Format.binary64
    (((first <<< (firstExponent - min firstExponent secondExponent).toNat : Nat) : Int) -
      -((second <<< (secondExponent - min firstExponent secondExponent).toNat : Nat) : Int))
    (min firstExponent secondExponent) .positive = _
  rw [isLow, Nat.shiftLeft_eq, Nat.shiftLeft_eq]
  push_cast
  rw [sub_neg_eq_add]

/-- The difference of a positive finite double and a negative one is at least one if one
of them is. -/
theorem one_le_rank_sub_opposite {first second : Nat} {firstExponent secondExponent : Int}
    {firstPositive : 0 < first} {secondPositive : 0 < second}
    (large : 1 ≤ totalExponent first firstExponent ∨ 1 ≤ totalExponent second secondExponent) :
    (packed (UnpackedFloat.sub Format.binary64
        (.finite .positive first firstExponent firstPositive)
        (.finite .negative second secondExponent secondPositive))).isNaN = false ∧
      rank (ofInt 1) ≤ rank (packed (UnpackedFloat.sub Format.binary64
        (.finite .positive first firstExponent firstPositive)
        (.finite .negative second secondExponent secondPositive))) := by
  obtain ⟨sum, low, sumPositive, firstLeast, secondLeast, unrounded⟩ :=
    sub_opposite firstExponent secondExponent firstPositive secondPositive
  have normalTotal : -1021 ≤ totalExponent sum low := by omega
  obtain ⟨rounded, newExponent, newPositive, isRounded, normal, small, least⟩ :=
    exists_round_normal .positive sumPositive normalTotal
  rw [unrounded, isRounded]
  exact one_le_rank_packed normal small (by omega)

/-- A double that is not negative, plus one, is at least one. -/
theorem one_le_rank_sub_neg_one {value : Float} (defined : value.isNaN = false)
    (nonnegative : 0 ≤ rank value) :
    (value - ofInt (-1)).isNaN = false ∧ rank (ofInt 1) ≤ rank (value - ofInt (-1)) := by
  have canonical := isCanonical_unpacked value
  rw [isNaN_eq_false] at defined
  rw [rank] at nonnegative
  change (packed (UnpackedFloat.sub Format.binary64 (unpacked value) (unit .negative))).isNaN =
    false ∧ _ ≤ rank (packed (UnpackedFloat.sub Format.binary64 (unpacked value) (unit .negative)))
  cases parts : unpacked value with
  | notANumber => exact absurd parts defined
  | infinity sign =>
      rw [parts] at nonnegative
      cases sign with
      | negative => exact absurd nonnegative (by decide)
      | positive => exact ⟨by decide, by decide⟩
  | zero sign => exact one_le_rank_packed (by decide) (by decide) (by decide)
  | finite sign coefficient exponent positive =>
      rw [parts] at nonnegative canonical
      cases sign with
      | negative => exact absurd nonnegative (not_le.mpr (rank_finite_negative canonical).2)
      | positive => exact one_le_rank_sub_opposite (.inr (by decide))

end Successor

section Nearness

variable {settings : Settings}

theorem near_eq_true {first second : Float} :
    settings.near first second = true ↔ (first - second).abs < settings.epsilon :=
  decide_eq_true_iff

theorem apart_eq_true {first second : Float} :
    settings.apart first second = true ↔ settings.epsilon ≤ (first - second).abs :=
  decide_eq_true_iff

theorem not_near_zero_of_apart {value : Float} (apart : settings.apart value (ofInt 0) = true) :
    settings.near value (ofInt 0) = false := by
  rw [apart_eq_true, le_iff] at apart
  rw [Bool.eq_false_iff, Ne, near_eq_true, lt_iff]
  omega

theorem not_near_of_one_le (atMostOne : settings.epsilon ≤ 1.0) {first second : Float}
    (far : (first - second).isNaN = false → rank (ofInt 1) ≤ rank (first - second)) :
    settings.near first second = false := by
  rw [le_iff] at atMostOne
  rw [Bool.eq_false_iff, Ne, near_eq_true, lt_iff, isNaN_abs]
  rintro ⟨defined, -, near⟩
  have one : rank 1.0 = rank (ofInt 1) := rfl
  have large := far defined
  rw [rank_abs _ defined] at near
  have least := le_abs_self (rank (first - second))
  omega

theorem not_near_neg_one_of_nonnegative (atMostOne : settings.epsilon ≤ 1.0) {value : Float}
    (nonnegative : ¬ value < 0.0) : settings.near value (ofInt (-1)) = false := by
  apply not_near_of_one_le atMostOne
  intro defined
  have valueDefined : value.isNaN = false := by
    rw [isNaN_eq_false] at defined ⊢
    intro undefined
    apply defined
    change unpacked (packed (UnpackedFloat.sub Format.binary64 (unpacked value) _)) = _
    rw [undefined]
    have canonical : IsCanonical .notANumber := trivial
    exact unpacked_packed canonical
  have zeroDefined : (0.0 : Float).isNaN = false := rfl
  have zeroRank : rank 0.0 = 0 := rfl
  rw [lt_iff] at nonnegative
  have rankNonnegative : 0 ≤ rank value := by
    by_contra negative
    exact nonnegative ⟨valueDefined, zeroDefined, by omega⟩
  exact (one_le_rank_sub_neg_one valueDefined rankNonnegative).2

end Nearness

theorem isNegative_doubles (settings : Settings) (value : Float) :
    (Doubles.arithmetic settings).isNegative value = decide (value < 0.0) :=
  rfl

/-- Doubles with a tolerance above zero and at most one are a tolerant arithmetic. -/
theorem isTolerant_doubles {settings : Settings} (positive : 0.0 < settings.epsilon)
    (atMostOne : settings.epsilon ≤ 1.0) :
    (Doubles.arithmetic settings).IsTolerant where
  mul_one value := mul_one_eq value
  one_mul value := one_mul_eq value
  neg_one_mul_neg value := neg_one_mul_neg_eq value
  neg_neg_one := by
    change - -ofInt 1 = ofInt 1
    decide
  one_near_one := by
    change settings.near (ofInt 1) (ofInt 1) = true
    rw [near_eq_true]
    have zero : (ofInt 1 - ofInt 1).abs = 0.0 := by decide
    rw [zero]
    exact positive
  neg_one_near_neg_one := by
    change settings.near (-ofInt 1) (ofInt (-1)) = true
    rw [near_eq_true]
    have zero : (-ofInt 1 - ofInt (-1)).abs = 0.0 := by decide
    rw [zero]
    exact positive
  neg_one_not_near_one := by
    change settings.near (-ofInt 1) (ofInt 1) = false
    rw [Bool.eq_false_iff, Ne, near_eq_true, lt_iff]
    rw [le_iff] at atMostOne
    have two : rank (-ofInt 1 - ofInt 1).abs = rank 2.0 := by decide
    have oneLess : rank 1.0 < rank 2.0 := by decide
    omega
  one_apart := by
    change settings.apart (ofInt 1) (ofInt 0) = true
    rw [apart_eq_true, sub_zero_eq]
    exact atMostOne
  neg_one_apart := by
    change settings.apart (-ofInt 1) (ofInt 0) = true
    rw [apart_eq_true, sub_zero_eq]
    exact atMostOne
  one_not_negative := by
    have notNegative : ¬ ofInt 1 < 0.0 := by decide
    rw [isNegative_doubles]
    exact decide_eq_false notNegative
  neg_one_negative := by
    have negative : -ofInt 1 < 0.0 := by decide
    rw [isNegative_doubles]
    exact decide_eq_true negative
  not_near_zero value apart := not_near_zero_of_apart apart
  neg_not_near_zero value apart := by
    change settings.near (-value) (ofInt 0) = false
    apply not_near_zero_of_apart
    have sameApart : settings.apart value (ofInt 0) = true := apart
    rw [apart_eq_true, sub_zero_eq] at sameApart ⊢
    rw [abs_neg_eq]
    exact sameApart
  not_near_neg_one value notNegative :=
    not_near_neg_one_of_nonnegative atMostOne (of_decide_eq_false notNegative)
  neg_not_near_neg_one value negative := by
    apply not_near_neg_one_of_nonnegative atMostOne
    have below : value < 0.0 := of_decide_eq_true negative
    change ¬ -value < 0.0
    rw [lt_iff] at below ⊢
    have zeroRank : rank 0.0 = 0 := rfl
    rw [rank_neg value below.1]
    omega

end Binary64

end ExprCalculus
