import ExprCalculus.Binary64.Basic
import Mathlib

/-!
# The parts of a double

The operations on doubles take a double apart into a sign, a coefficient and an
exponent, and put the parts of the result together again.  This file says what
the parts are in terms of the bits, which parts come from a double, and that
taking apart and putting together are inverse to each other.
-/

namespace ExprCalculus

namespace Binary64

open Float.Model Float.Model.UnpackedFloat

def unpacked (value : Float) : UnpackedFloat :=
  value.toModel.unpack

def packed (parts : UnpackedFloat) : Float :=
  ⟨Float.Model.pack parts⟩

/-- The parts of some double: a coefficient of at most 53 bits, which has all of them
unless the exponent is the smallest one. -/
def IsCanonical : UnpackedFloat → Prop
  | .finite _ coefficient exponent _ =>
      coefficient < 2 ^ 53 ∧ -1074 ≤ exponent ∧ exponent ≤ 971 ∧
        (2 ^ 52 ≤ coefficient ∨ exponent = -1074)
  | _ => True

def magnitudeBits : UnpackedFloat → Nat
  | .infinity _ => 2047 * 2 ^ 52
  | .notANumber => 2047 * 2 ^ 52 + 2 ^ 51
  | .zero _ => 0
  | .finite _ coefficient exponent _ => (exponent + 1074).toNat * 2 ^ 52 + coefficient

def signNumber : Sign → Nat
  | .negative => 1
  | .positive => 0

/-- The sign of a double; an undefined double has the positive one. -/
def signPart : UnpackedFloat → Sign
  | .infinity sign | .zero sign | .finite sign _ _ _ => sign
  | .notANumber => .positive

def bitsOfParts (parts : UnpackedFloat) : Nat :=
  signNumber (signPart parts) * 2 ^ 63 + magnitudeBits parts

section Fields

variable (bits : BitVec 64)

theorem toNat_unpackMantissa :
    (@unpackMantissa Format.binary64 bits).toNat = bits.toNat % 2 ^ 52 := by
  simp [unpackMantissa, BitVec.extractLsb]

theorem toNat_unpackExponent :
    (@unpackExponent Format.binary64 bits).toNat = bits.toNat / 2 ^ 52 % 2 ^ 11 := by
  simp [unpackExponent, BitVec.extractLsb, Nat.shiftRight_eq_div_pow]

theorem toNat_unpackSign :
    (@unpackSign Format.binary64 bits).toNat = bits.toNat / 2 ^ 63 := by
  have small := bits.isLt
  simp [unpackSign, BitVec.extractLsb, Nat.shiftRight_eq_div_pow]
  omega

theorem toNat_packComponents (sign : Sign) (exponent : BitVec 11) (fraction : BitVec 52) :
    (packComponents Format.binary64 sign exponent fraction).toNat =
      sign.toBitVec.toNat * 2 ^ 63 + exponent.toNat * 2 ^ 52 + fraction.toNat := by
  have fractionSmall := fraction.isLt
  have exponentSmall := exponent.isLt
  unfold packComponents
  change ((sign.toBitVec ++ exponent) ++ fraction).toNat = _
  rw [BitVec.toNat_append, BitVec.toNat_append, ← Nat.shiftLeft_add_eq_or_of_lt fractionSmall,
    ← Nat.shiftLeft_add_eq_or_of_lt exponentSmall]
  simp only [Nat.shiftLeft_eq]
  ring

end Fields

/-- The parts that a pattern of 64 bits stands for. -/
def partsOfBits (bits : Nat) : UnpackedFloat :=
  let sign : Sign := if 2 ^ 63 ≤ bits then .negative else .positive
  let exponent : Nat := bits / 2 ^ 52 % 2 ^ 11
  let fraction : Nat := bits % 2 ^ 52
  if exponent = 2047 then
    if fraction = 0 then .infinity sign else .notANumber
  else if exponent = 0 then
    if zero : fraction = 0 then .zero sign
    else .finite sign fraction (-1074) (Nat.pos_of_ne_zero zero)
  else
    .finite sign (fraction + 2 ^ 52) ((exponent : Int) - 1075) (by omega)

theorem unpack_eq_partsOfBits (word : BitVec 64) :
    UnpackedFloat.unpack Format.binary64 word = partsOfBits word.toNat := by
  have exponentField := toNat_unpackExponent word
  have fractionField := toNat_unpackMantissa word
  have signField := toNat_unpackSign word
  have small := word.isLt
  have allOnes : @unpackExponent Format.binary64 word = -1#_ ↔
      word.toNat / 2 ^ 52 % 2 ^ 11 = 2047 := by
    rw [← BitVec.toNat_inj, exponentField]
    rfl
  have noneSet : @unpackExponent Format.binary64 word = 0#_ ↔
      word.toNat / 2 ^ 52 % 2 ^ 11 = 0 := by
    rw [← BitVec.toNat_inj, exponentField]
    rfl
  have noFraction : @unpackMantissa Format.binary64 word = 0#_ ↔
      word.toNat % 2 ^ 52 = 0 := by
    rw [← BitVec.toNat_inj, fractionField]
    rfl
  have sign : Sign.ofBitVec (@unpackSign Format.binary64 word) =
      if 2 ^ 63 ≤ word.toNat then .negative else .positive := by
    have positive : @unpackSign Format.binary64 word = 0#1 ↔ ¬ 2 ^ 63 ≤ word.toNat := by
      rw [← BitVec.toNat_inj, signField]
      change _ = 0 ↔ _
      omega
    unfold Sign.ofBitVec
    by_cases negative : 2 ^ 63 ≤ word.toNat
    · rw [if_pos negative, if_neg (by rw [positive]; exact not_not_intro negative)]
    · rw [if_neg negative, if_pos (positive.mpr negative)]
  have implicit : (1#1 ++ @unpackMantissa Format.binary64 word).toNat =
      word.toNat % 2 ^ 52 + 2 ^ 52 := by
    have fractionSmall := (@unpackMantissa Format.binary64 word).isLt
    rw [BitVec.toNat_append, ← Nat.shiftLeft_add_eq_or_of_lt fractionSmall, fractionField]
    simp [Nat.shiftLeft_eq, Nat.add_comm]
  unfold UnpackedFloat.unpack partsOfBits
  simp only [allOnes, noneSet, noFraction, sign, implicit, exponentField, fractionField]
  split
  · rfl
  split
  next zero =>
    split
    · rfl
    · rw [zero]
      rfl
  · rfl

theorem isCanonical_partsOfBits (bits : Nat) : IsCanonical (partsOfBits bits) := by
  unfold partsOfBits
  dsimp only
  split
  · split <;> trivial
  split
  · split
    · trivial
    · refine ⟨?_, by omega, by omega, .inr rfl⟩
      omega
  · refine ⟨?_, ?_, ?_, .inl ?_⟩ <;> omega

theorem signNumber_of_bits {bits : Nat} (small : bits < 2 ^ 64) :
    signNumber (if 2 ^ 63 ≤ bits then .negative else .positive) = bits / 2 ^ 63 := by
  split
  · change 1 = _
    omega
  · change 0 = _
    omega

/-- The parts of a pattern that is no undefined double give the pattern back. -/
theorem bitsOfParts_partsOfBits {bits : Nat} (small : bits < 2 ^ 64)
    (defined : partsOfBits bits ≠ .notANumber) : bitsOfParts (partsOfBits bits) = bits := by
  have sign := signNumber_of_bits small
  unfold partsOfBits at defined ⊢
  dsimp only at defined ⊢
  split
  next full =>
    split
    next noFraction =>
      rw [bitsOfParts, signPart, sign, magnitudeBits]
      omega
    next fraction =>
      rw [if_pos full, if_neg fraction] at defined
      exact absurd rfl defined
  next notFull =>
    split
    next empty =>
      split
      · rw [bitsOfParts, signPart, sign, magnitudeBits]
        omega
      · have origin : (-1074 + 1074 : Int).toNat = 0 := rfl
        rw [bitsOfParts, signPart, sign, magnitudeBits, origin]
        omega
    next notEmpty =>
      rw [bitsOfParts, signPart, sign, magnitudeBits]
      omega

/-- Canonical parts are the parts of their bits. -/
theorem partsOfBits_bitsOfParts {parts : UnpackedFloat} (canonical : IsCanonical parts) :
    partsOfBits (bitsOfParts parts) = parts := by
  cases parts with
  | notANumber => rfl
  | infinity sign => cases sign <;> rfl
  | zero sign => cases sign <;> rfl
  | finite sign coefficient exponent positive =>
      obtain ⟨small, least, most, full⟩ := canonical
      have signed : bitsOfParts (.finite sign coefficient exponent positive) =
          signNumber sign * 2 ^ 63 + ((exponent + 1074).toNat * 2 ^ 52 + coefficient) := rfl
      generalize bitsOfParts (.finite sign coefficient exponent positive) = bits at signed
      have signSmall : signNumber sign ≤ 1 := by cases sign <;> decide
      have sameSign : (if 2 ^ 63 ≤ bits then Sign.negative else Sign.positive) = sign := by
        cases sign with
        | negative => rw [if_pos]; rw [signed]; change _ ≤ 1 * 2 ^ 63 + _; omega
        | positive => rw [if_neg]; rw [signed]; change ¬ _ ≤ 0 * 2 ^ 63 + _; omega
      unfold partsOfBits
      dsimp only
      rw [sameSign]
      by_cases normal : 2 ^ 52 ≤ coefficient
      · have exponentField : bits / 2 ^ 52 % 2 ^ 11 = (exponent + 1075).toNat := by omega
        have fractionField : bits % 2 ^ 52 + 2 ^ 52 = coefficient := by omega
        rw [if_neg (by omega), if_neg (by omega)]
        simp only [fractionField, exponentField]
        congr 1
        omega
      · have smallest := full.resolve_left normal
        have exponentField : bits / 2 ^ 52 % 2 ^ 11 = 0 := by omega
        have fractionField : bits % 2 ^ 52 = coefficient := by omega
        rw [if_neg (by omega), if_pos exponentField, dif_neg (by omega)]
        simp only [fractionField, smallest]

/-- Putting canonical parts together gives their bits. -/
theorem toNat_pack {parts : UnpackedFloat} (canonical : IsCanonical parts) :
    (UnpackedFloat.pack Format.binary64 parts).toNat = bitsOfParts parts := by
  cases parts with
  | notANumber => rfl
  | infinity sign => cases sign <;> rfl
  | zero sign => cases sign <;> rfl
  | finite sign coefficient exponent positive =>
      obtain ⟨small, least, most, full⟩ := canonical
      have biased : (exponent + Format.binary64.exponentBias +
          Format.binary64.mantissaBitsWithoutImplicit).toNat = (exponent + 1075).toNat := by
        change (exponent + (1023 : Nat) + (52 : Nat)).toNat = _
        omega
      have signBits : sign.toBitVec.toNat = signNumber sign := by cases sign <;> rfl
      have notInfinite : ¬ 2 ^ Format.binary64.exponentBits ≤ (exponent + 1075).toNat + 1 := by
        change ¬ 2 ^ 11 ≤ _
        omega
      unfold UnpackedFloat.pack
      dsimp only
      rw [biased, if_neg notInfinite, bitsOfParts, signPart, magnitudeBits]
      by_cases normal : 2 ^ 52 ≤ coefficient
      · have bits : coefficient.log2 + 1 = Format.binary64.mantissaBits := by
          have log : coefficient.log2 = 52 :=
            (Nat.log2_eq_iff (by omega)).mpr ⟨normal, small⟩
          rw [log]
          rfl
        rw [if_pos bits, toNat_packComponents, BitVec.toNat_ofNat, BitVec.toNat_ofNat, signBits]
        omega
      · have smallest := full.resolve_left normal
        have bits : ¬ coefficient.log2 + 1 = Format.binary64.mantissaBits := by
          have log : coefficient.log2 < 52 := (Nat.log2_lt (by omega)).mpr (by omega)
          change ¬ _ = 53
          omega
        have origin : (-1074 + 1074 : Int).toNat = 0 := rfl
        rw [if_neg bits, toNat_packComponents, BitVec.toNat_ofNat, BitVec.toNat_ofNat, signBits,
          smallest, origin]
        omega

theorem toNat_bits_packed {parts : UnpackedFloat} (canonical : IsCanonical parts) :
    (packed parts).toBits.toNat = bitsOfParts parts :=
  toNat_pack canonical

theorem unpacked_eq_partsOfBits (value : Float) :
    unpacked value = partsOfBits value.toBits.toNat :=
  unpack_eq_partsOfBits value.toBits.toBitVec

theorem isCanonical_unpacked (value : Float) : IsCanonical (unpacked value) := by
  rw [unpacked_eq_partsOfBits]
  exact isCanonical_partsOfBits _

/-- Taking apart what was put together from canonical parts gives the parts. -/
theorem unpacked_packed {parts : UnpackedFloat} (canonical : IsCanonical parts) :
    unpacked (packed parts) = parts := by
  rw [unpacked_eq_partsOfBits, toNat_bits_packed canonical, partsOfBits_bitsOfParts canonical]

/-- The bits of a double are the bits of its parts. -/
theorem toNat_bits_eq (value : Float) : value.toBits.toNat = bitsOfParts (unpacked value) := by
  by_cases undefined : unpacked value = .notANumber
  · have exponentField := toNat_unpackExponent value.toBits.toBitVec
    have fractionField := toNat_unpackMantissa value.toBits.toBitVec
    have full : @unpackExponent Format.binary64 value.toBits.toBitVec = -1#_ ∧
        @unpackMantissa Format.binary64 value.toBits.toBitVec ≠ 0#_ := by
      have parts : UnpackedFloat.unpack Format.binary64 value.toBits.toBitVec = .notANumber :=
        undefined
      unfold UnpackedFloat.unpack at parts
      dsimp only at parts
      split at parts
      next full =>
        split at parts
        next => cases parts
        next fraction => exact ⟨full, fraction⟩
      next =>
        split at parts
        · split at parts <;> cases parts
        · cases parts
    have canonical := value.toModel.valid.eq_packedNaN full.1 full.2
    rw [undefined]
    change value.toBits.toBitVec.toNat = _
    rw [show value.toBits.toBitVec = packedNaN Format.binary64 from canonical]
    rfl
  · rw [unpacked_eq_partsOfBits] at undefined ⊢
    exact (bitsOfParts_partsOfBits value.toBits.toBitVec.isLt undefined).symm

theorem unpacked_injective {first second : Float} (same : unpacked first = unpacked second) :
    first = second := by
  have bits : first.toBits.toNat = second.toBits.toNat := by
    rw [toNat_bits_eq, toNat_bits_eq, same]
  have words : first.toModel.toBits = second.toModel.toBits := UInt64.toNat_inj.mp bits
  obtain ⟨⟨firstWord, _⟩⟩ := first
  obtain ⟨⟨secondWord, _⟩⟩ := second
  cases words
  rfl

theorem packed_unpacked (value : Float) : packed (unpacked value) = value :=
  unpacked_injective (unpacked_packed (isCanonical_unpacked value))

theorem unpacked_ofBits (word : UInt64) :
    unpacked (Float.ofBits word) = partsOfBits word.toNat := by
  have parts : UnpackedFloat.unpack Format.binary64 word.toBitVec = partsOfBits word.toNat :=
    unpack_eq_partsOfBits word.toBitVec
  change unpacked (packed (UnpackedFloat.unpack Format.binary64 word.toBitVec)) = _
  rw [parts]
  exact unpacked_packed (isCanonical_partsOfBits _)

end Binary64

end ExprCalculus
