import ExprCalculus.Proofs.Doubles.Order
import ExprCalculus.Settings

/-!
# Distances of doubles

The distance of two doubles does not depend on their order, although the difference is
rounded: its sign has no part in the rounding.  Hence two doubles that are near each
other are so in either order, and constants that count as the same do so too.
-/

namespace ExprCalculus

namespace Binary64

open Float.Model Float.Model.UnpackedFloat

section Signs

/-- The sign of a double is one of its bits, and the others are independent of it. -/
theorem exists_components (coefficient : Nat) (exponent : Int) (positive : 0 < coefficient) :
    ∃ (field : BitVec 11) (fraction : BitVec 52), ∀ sign,
      UnpackedFloat.pack Format.binary64 (.finite sign coefficient exponent positive) =
        packComponents Format.binary64 sign field fraction := by
  unfold UnpackedFloat.pack
  dsimp only
  split
  · exact ⟨-1#_, 0, fun sign => rfl⟩
  split
  · exact ⟨_, _, fun sign => rfl⟩
  · exact ⟨0#_, _, fun sign => rfl⟩

theorem abs_partsOfBits (bits : Nat) :
    (partsOfBits (2 ^ 63 + bits)).abs = (partsOfBits bits).abs := by
  have exponent : (2 ^ 63 + bits) / 2 ^ 52 % 2 ^ 11 = bits / 2 ^ 52 % 2 ^ 11 := by omega
  have fraction : (2 ^ 63 + bits) % 2 ^ 52 = bits % 2 ^ 52 := by omega
  unfold partsOfBits
  dsimp only
  simp only [exponent, fraction]
  split
  · split <;> rfl
  split
  · split <;> rfl
  · rfl

theorem abs_packed_sign (coefficient : Nat) (exponent : Int) (positive : 0 < coefficient) :
    (packed (.finite .negative coefficient exponent positive)).abs =
      (packed (.finite .positive coefficient exponent positive)).abs := by
  obtain ⟨field, fraction, components⟩ := exists_components coefficient exponent positive
  have fieldSmall := field.isLt
  have fractionSmall := fraction.isLt
  have bits (sign : Sign) :
      (packed (.finite sign coefficient exponent positive)).toBits.toNat =
        sign.toBitVec.toNat * 2 ^ 63 + field.toNat * 2 ^ 52 + fraction.toNat := by
    rw [← toNat_packComponents, ← components sign]
    rfl
  have negativeBits : (packed (.finite .negative coefficient exponent positive)).toBits.toNat =
      2 ^ 63 + (field.toNat * 2 ^ 52 + fraction.toNat) := by
    rw [bits .negative, ← Nat.add_assoc]
    rfl
  have positiveBits : (packed (.finite .positive coefficient exponent positive)).toBits.toNat =
      field.toNat * 2 ^ 52 + fraction.toNat := by
    rw [bits .positive]
    change 0 * 2 ^ 63 + _ + _ = _
    rw [Nat.zero_mul, Nat.zero_add]
  apply unpacked_injective
  rw [unpacked_abs, unpacked_abs, unpacked_eq_partsOfBits, unpacked_eq_partsOfBits, negativeBits,
    positiveBits]
  exact abs_partsOfBits _

end Signs

section Differences

theorem abs_packed_round (coefficient : Nat) (exponent : Int) :
    (packed (UnpackedFloat.round Format.binary64 .negative coefficient exponent)).abs =
      (packed (UnpackedFloat.round Format.binary64 .positive coefficient exponent)).abs := by
  unfold UnpackedFloat.round roundWithAccuracy
  dsimp only
  split
  · rfl
  · exact abs_packed_sign _ _ _

theorem abs_packed_normalize (number : Int) (exponent : Int) :
    (packed (UnpackedFloat.normalize Format.binary64 (-number) exponent .positive)).abs =
      (packed (UnpackedFloat.normalize Format.binary64 number exponent .positive)).abs := by
  unfold UnpackedFloat.normalize
  rcases lt_trichotomy number 0 with below | rfl | above
  · rw [compare_lt_iff_lt.mpr below, compare_gt_iff_gt.mpr (by omega : -number > 0)]
    exact (abs_packed_round _ _).symm
  · rfl
  · rw [compare_gt_iff_gt.mpr above, compare_lt_iff_lt.mpr (by omega : -number < 0)]
    dsimp only
    rw [neg_neg]
    exact abs_packed_round _ _

theorem abs_packed_infinity (first second : Sign) :
    (packed (.infinity first)).abs = (packed (.infinity second)).abs := by
  cases first <;> cases second <;> rfl

theorem abs_packed_finite (first second : Sign) (coefficient : Nat) (exponent : Int)
    (positive : 0 < coefficient) :
    (packed (.finite first coefficient exponent positive)).abs =
      (packed (.finite second coefficient exponent positive)).abs := by
  have same := abs_packed_sign coefficient exponent positive
  cases first <;> cases second
  · rfl
  · exact same
  · exact same.symm
  · rfl

theorem abs_packed_sub (first second : UnpackedFloat) :
    (packed (first.sub Format.binary64 second)).abs =
      (packed (second.sub Format.binary64 first)).abs := by
  match first, second with
  | .notANumber, .notANumber | .notANumber, .infinity _ | .notANumber, .zero _ |
    .notANumber, .finite _ _ _ _ | .infinity _, .notANumber | .zero _, .notANumber |
    .finite _ _ _ _, .notANumber => rfl
  | .infinity firstSign, .infinity secondSign =>
      cases firstSign <;> cases secondSign <;> rfl
  | .infinity sign, .zero _ | .infinity sign, .finite _ _ _ _ => exact abs_packed_infinity _ _
  | .zero _, .infinity sign | .finite _ _ _ _, .infinity sign => exact abs_packed_infinity _ _
  | .zero firstSign, .zero secondSign => cases firstSign <;> cases secondSign <;> rfl
  | .zero _, .finite sign coefficient exponent positive => exact abs_packed_finite _ _ _ _ _
  | .finite sign coefficient exponent positive, .zero _ => exact abs_packed_finite _ _ _ _ _
  | .finite firstSign firstCoefficient firstExponent _,
    .finite secondSign secondCoefficient secondExponent _ =>
      unfold UnpackedFloat.sub
      dsimp only
      rw [min_comm secondExponent firstExponent, ← neg_sub]
      exact abs_packed_normalize _ _

/-- The distance of two doubles does not depend on their order. -/
theorem abs_sub_comm (first second : Float) : (first - second).abs = (second - first).abs :=
  abs_packed_sub (unpacked first) (unpacked second)

theorem abs_packed_neg_sub_neg (first second : UnpackedFloat) :
    (packed (first.neg.sub Format.binary64 second.neg)).abs =
      (packed (first.sub Format.binary64 second)).abs := by
  match first, second with
  | .notANumber, .notANumber | .notANumber, .infinity _ | .notANumber, .zero _ |
    .notANumber, .finite _ _ _ _ | .infinity _, .notANumber | .zero _, .notANumber |
    .finite _ _ _ _, .notANumber => rfl
  | .infinity firstSign, .infinity secondSign =>
      cases firstSign <;> cases secondSign <;> rfl
  | .infinity sign, .zero _ | .infinity sign, .finite _ _ _ _ => exact abs_packed_infinity _ _
  | .zero _, .infinity sign | .finite _ _ _ _, .infinity sign => exact abs_packed_infinity _ _
  | .zero firstSign, .zero secondSign => cases firstSign <;> cases secondSign <;> rfl
  | .zero _, .finite sign coefficient exponent positive => exact abs_packed_finite _ _ _ _ _
  | .finite sign coefficient exponent positive, .zero _ => exact abs_packed_finite _ _ _ _ _
  | .finite firstSign firstCoefficient firstExponent _,
    .finite secondSign secondCoefficient secondExponent _ =>
      have opposite (sign : Sign) (number : Int) : (-sign).apply number = -sign.apply number := by
        cases sign
        · exact (neg_neg number).symm
        · rfl
      unfold UnpackedFloat.sub UnpackedFloat.neg
      dsimp only
      rw [opposite, opposite, neg_sub_neg, ← neg_sub]
      exact abs_packed_normalize _ _

/-- The distance of two doubles is that of the doubles with the other signs. -/
theorem abs_neg_sub_neg (first second : Float) : (-first - -second).abs = (first - second).abs := by
  change (packed ((unpacked (-first)).sub Format.binary64 (unpacked (-second)))).abs = _
  rw [unpacked_neg, unpacked_neg]
  exact abs_packed_neg_sub_neg _ _

/-- A difference is defined only between doubles that are defined. -/
theorem isNaN_of_sub {first second : Float} (defined : (first - second).isNaN = false) :
    first.isNaN = false ∧ second.isNaN = false := by
  rw [isNaN_eq_false, isNaN_eq_false]
  have parts : first - second =
      packed ((unpacked first).sub Format.binary64 (unpacked second)) := rfl
  have undefinedPacked : (packed .notANumber).isNaN = true := rfl
  constructor
  · intro undefined
    have result : (unpacked first).sub Format.binary64 (unpacked second) = .notANumber := by
      rw [undefined]
      rfl
    rw [parts, result, undefinedPacked] at defined
    cases defined
  · intro undefined
    have result : (unpacked first).sub Format.binary64 (unpacked second) = .notANumber := by
      rw [undefined]
      cases unpacked first <;> rfl
    rw [parts, result, undefinedPacked] at defined
    cases defined

end Differences

end Binary64

namespace Settings

variable (settings : Settings)

theorem near_comm (first second : Float) :
    settings.near first second = settings.near second first := by
  unfold near
  rw [Binary64.abs_sub_comm]

theorem near_neg_neg (first second : Float) :
    settings.near (-first) (-second) = settings.near first second := by
  unfold near
  rw [Binary64.abs_neg_sub_neg]

theorem same_self (value : Float) : settings.same value value = true := by
  unfold same
  by_cases undefined : value.isNaN = true
  · rw [undefined, Bool.or_self, if_pos rfl, Bool.and_self]
  · rw [Bool.not_eq_true] at undefined
    have equal : (value == value) = true := Binary64.beq_iff.mpr ⟨undefined, undefined, rfl⟩
    rw [undefined, Bool.or_self, if_neg Bool.false_ne_true, equal, Bool.true_or]

theorem same_of_near {first second : Float} (near : settings.near first second = true) :
    settings.same second first = true := by
  rw [near_comm] at near
  have defined := (Binary64.lt_iff.mp (of_decide_eq_true near)).1
  rw [Binary64.isNaN_abs] at defined
  obtain ⟨secondDefined, firstDefined⟩ := Binary64.isNaN_of_sub defined
  unfold same
  rw [firstDefined, secondDefined, Bool.or_self, if_neg Bool.false_ne_true, near, Bool.or_true]

end Settings

end ExprCalculus
