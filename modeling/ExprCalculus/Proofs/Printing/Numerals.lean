import ExprCalculus.Expr.Printer
import ExprCalculus.Proofs.Decimals.Writing
import ExprCalculus.Proofs.Doubles.Difference

/-!
# Numerals

A finite constant is written as a whole number or as a shortest decimal, with a minus
sign in front if it is negative.  The text after the sign is a literal that is read as
the magnitude of the constant.
-/

namespace ExprCalculus

namespace Binary64

open Float.Model Float.Model.UnpackedFloat

theorem shortest_neg (value : Float) : Decimal.shortest (-value) = Decimal.shortest value := by
  have magnitude : magnitude? (-value) = magnitude? value := by
    rw [magnitude?_eq, magnitude?_eq, unpacked_neg]
    cases unpacked value <;> rfl
  unfold Decimal.shortest
  rw [magnitude]

end Binary64

namespace Expr

open Binary64 Float.Model Float.Model.UnpackedFloat

/-- The text of a constant that is finite and has no name. -/
def numeral (value : Float) : String :=
  match toRat? value with
  | some number =>
      if number.den = 1 && value.abs < 1e16 then toString number.num else Decimal.text value
  | none => Decimal.text value

theorem constantText_eq (settings : Settings) (value : Float) :
    constantText settings value =
      if value.isNaN then "(0/0)"
      else if value.isInf then (if 0.0 < value then "(1/0)" else "(-1/0)")
      else if value == 0.0 && signBit value then "(-0)"
      else if settings.near value piConstant then "pi"
      else if settings.near value eulerConstant then "e"
      else numeral value :=
  rfl

variable {value : Float} {coefficient : ℕ} {exponent : ℤ} {positive : 0 < coefficient}

theorem text_of_finite {sign : Sign}
    (parts : unpacked value = .finite sign coefficient exponent positive) :
    Decimal.text value =
      if signNumber sign = 1 then "-" ++ Decimal.Format.standard.write (Decimal.shortest value)
      else Decimal.Format.standard.write (Decimal.shortest value) := by
  have defined : value.isNaN = false := by
    rw [isNaN_eq, parts]
    rfl
  have bounded : value.isInf = false := by
    change (unpacked value).isInf = false
    rw [parts]
    rfl
  unfold Decimal.text Decimal.Format.writeFloat
  have isSign := signBit_eq value
  rw [parts] at isSign
  rw [defined, bounded, isSign]
  cases sign <;> rfl

def ReadsAs (text : String) (value : Float) : Prop :=
  ∃ decimal, Decimal.IsLiteral text.toList decimal ∧ decimal.toFloat false = value

/-- The numeral of a positive double is read as the double. -/
theorem numeral_readsAs (parts : unpacked value = .finite .positive coefficient exponent positive) :
    ReadsAs (numeral value) value := by
  have isMagnitude : magnitude? value = some (coefficient, exponent) := by
    rw [magnitude?_eq, parts]
  have isPositive : signBit value = false := by
    rw [signBit_eq, parts]
    rfl
  have reads (decimal : Decimal) (near : Near coefficient exponent decimal.value) :
      decimal.toFloat false = value := by
    rw [← isPositive]
    exact Decimal.toFloat_of_near isMagnitude positive near
  have ratio : toRat? value = some ((coefficient : ℚ) * 2 ^ exponent) := toRat?_eq parts
  have nonnegative : (0 : ℚ) ≤ coefficient * 2 ^ exponent :=
    mul_nonneg (Nat.cast_nonneg _) (two_zpow_pos _).le
  unfold numeral
  rw [ratio]
  dsimp only
  split
  next whole =>
    rw [Bool.and_eq_true, decide_eq_true_eq] at whole
    have isWhole := Rat.den_eq_one_iff _ |>.mp whole.1
    obtain ⟨number, isNumber⟩ := Int.eq_ofNat_of_zero_le (Rat.num_nonneg.mpr nonnegative)
    refine ⟨⟨number, 0⟩, ?_, reads _ ?_⟩
    · rw [isNumber]
      exact Decimal.isLiteral_toString number
    · have isValue : Decimal.value ⟨number, 0⟩ = coefficient * 2 ^ exponent := by
        rw [← isWhole, isNumber]
        unfold Decimal.value
        push_cast
        norm_num
      rw [isValue]
      exact near_self coefficient exponent
  next =>
    rw [text_of_finite parts, if_neg nofun]
    obtain ⟨decimal, isLiteral, sameValue⟩ := Decimal.writes_write (Decimal.shortest value)
    refine ⟨decimal, isLiteral, reads _ ?_⟩
    rw [sameValue]
    exact Decimal.near_shortest isMagnitude positive

/-- The numeral of a negative double has a sign in front of the numeral of its
magnitude. -/
theorem numeral_negative (parts : unpacked value = .finite .negative coefficient exponent positive) :
    numeral value = "-" ++ numeral (-value) := by
  have opposite : unpacked (-value) = .finite .positive coefficient exponent positive := by
    rw [unpacked_neg, parts]
    rfl
  have ratio : toRat? value = some (-((coefficient : ℚ) * 2 ^ exponent)) := toRat?_eq parts
  have oppositeRatio : toRat? (-value) = some ((coefficient : ℚ) * 2 ^ exponent) :=
    toRat?_eq opposite
  have ratioPositive : (0 : ℚ) < coefficient * 2 ^ exponent :=
    mul_pos (Nat.cast_pos.mpr positive) (two_zpow_pos _)
  unfold numeral
  rw [ratio, oppositeRatio]
  dsimp only
  rw [Rat.den_neg_eq_den, Rat.num_neg_eq_neg_num, abs_neg_eq]
  split
  next whole =>
    obtain ⟨number, isNumber⟩ := Int.eq_succ_of_zero_lt (Rat.num_pos.mpr ratioPositive)
    rw [isNumber]
    rfl
  next =>
    rw [text_of_finite parts, text_of_finite opposite, shortest_neg]
    rfl

end Expr

end ExprCalculus
