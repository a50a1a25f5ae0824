import ExprCalculus.Decimal.Format
import ExprCalculus.Proofs.Decimals.Literal
import ExprCalculus.Proofs.Decimals.Shortest

/-!
# Writing decimals

A decimal is written as a literal that denotes the same number, in positional and in
exponent form.  Together with the interval of the shortest decimal this shows that
the text of a double is read back as the double.
-/

namespace ExprCalculus

namespace Decimal

open Text

section Digits

theorem digitsValue_toDigits (number : ℕ) : digitsValue (Nat.toDigits 10 number) = number :=
  Nat.ofDigitChars_ten_toDigits

theorem digitsValue_zeros_append (count : ℕ) (digits : List Char) :
    digitsValue (List.replicate count '0' ++ digits) = digitsValue digits := by
  change Nat.ofDigitChars 10 (List.replicate count '0' ++ digits) 0 = Nat.ofDigitChars 10 digits 0
  rw [Nat.ofDigitChars_append, Nat.ofDigitChars_replicate_zero, Nat.mul_zero]

theorem digitsValue_append_zeros (count : ℕ) (digits : List Char) :
    digitsValue (digits ++ List.replicate count '0') = 10 ^ count * digitsValue digits := by
  change Nat.ofDigitChars 10 (digits ++ List.replicate count '0') 0 =
    10 ^ count * Nat.ofDigitChars 10 digits 0
  rw [Nat.ofDigitChars_append, Nat.ofDigitChars_replicate_zero]

theorem isDigit_of_mem_toDigits {number : ℕ} :
    ∀ digit ∈ Nat.toDigits 10 number, isDigit digit = true := fun _ member =>
  Nat.isDigit_of_mem_toDigits (by norm_num) (by norm_num) member

theorem isDigit_of_mem_zeros {count : ℕ} :
    ∀ digit ∈ List.replicate count '0', isDigit digit = true := by
  intro digit member
  rw [List.eq_of_mem_replicate member]
  rfl

end Digits

/-- A whole number is written as a literal of itself. -/
theorem isLiteral_toString (number : ℕ) : IsLiteral (toString number).toList ⟨number, 0⟩ := by
  have literal := IsLiteral.parts Nat.toDigits_ne_nil (@isDigit_of_mem_toDigits number) .none .none
  rw [List.append_nil, List.append_nil, digitsValue_toDigits] at literal
  rw [Nat.toString_eq_ofList_toDigits, String.toList_ofList]
  exact literal

/-- The literal has the value of the decimal. -/
def Writes (literal : List Char) (decimal : Decimal) : Prop :=
  ∃ read, IsLiteral literal read ∧ read.value = decimal.value

section Forms

variable {coefficient : ℕ} {exponent : ℤ}

theorem writes_pointed {whole fraction : List Char} (nonempty : whole ≠ [])
    (wholeDigits : ∀ digit ∈ whole, isDigit digit = true)
    (fractionDigits : ∀ digit ∈ fraction, isDigit digit = true)
    (isCoefficient : digitsValue (whole ++ fraction) = coefficient)
    (isExponent : -(fraction.length : ℤ) = exponent) :
    Writes (whole ++ '.' :: fraction) ⟨coefficient, exponent⟩ := by
  have literal := IsLiteral.parts nonempty wholeDigits (.digits fractionDigits) .none
  rw [List.append_nil, Int.zero_sub, isCoefficient, isExponent] at literal
  exact ⟨_, literal, rfl⟩

/-- A whole number with a point and one more zero. -/
theorem writes_whole (zeros : ℕ) :
    Writes (Nat.toDigits 10 coefficient ++ List.replicate zeros '0' ++ ".0".toList)
      ⟨coefficient, zeros⟩ := by
  have wholeDigits : ∀ digit ∈ Nat.toDigits 10 coefficient ++ List.replicate zeros '0',
      isDigit digit = true :=
    List.forall_mem_append.mpr ⟨isDigit_of_mem_toDigits, isDigit_of_mem_zeros⟩
  have nonempty : Nat.toDigits 10 coefficient ++ List.replicate zeros '0' ≠ [] :=
    List.append_ne_nil_of_left_ne_nil Nat.toDigits_ne_nil _
  have literal := IsLiteral.parts nonempty wholeDigits
    (.digits (@isDigit_of_mem_zeros 1)) .none
  refine ⟨_, literal, ?_⟩
  have isValue : digitsValue (Nat.toDigits 10 coefficient ++ List.replicate zeros '0' ++
      List.replicate 1 '0') = 10 * (10 ^ zeros * coefficient) := by
    rw [digitsValue_append_zeros, digitsValue_append_zeros, digitsValue_toDigits, pow_one]
  unfold value
  dsimp only
  rw [isValue, List.length_replicate]
  push_cast
  rw [zpow_natCast]
  norm_num
  ring

theorem writes_positional {order : ℤ}
    (isOrder : exponent + ((Nat.toDigits 10 coefficient).length - 1 : ℕ) = order) :
    Writes (positional ".0" (Nat.toDigits 10 coefficient) order).toList
      ⟨coefficient, exponent⟩ := by
  have digits := @isDigit_of_mem_toDigits coefficient
  have isCoefficient := digitsValue_toDigits coefficient
  have some : 0 < (Nat.toDigits 10 coefficient).length := Nat.length_toDigits_pos
  unfold positional
  split
  next small =>
    rw [String.toList_append, String.toList_ofList, String.toList_ofList]
    change Writes (['0'] ++ '.' :: (List.replicate (-order - 1).toNat '0' ++
      Nat.toDigits 10 coefficient)) _
    refine writes_pointed (List.cons_ne_nil _ _) (@isDigit_of_mem_zeros 1) ?_ ?_ ?_
    · exact List.forall_mem_append.mpr ⟨isDigit_of_mem_zeros, digits⟩
    · refine (digitsValue_zeros_append 1 _).trans ?_
      rw [digitsValue_zeros_append, isCoefficient]
    · rw [List.length_append, List.length_replicate]
      omega
  next large =>
    dsimp only
    split
    next noFraction =>
      rw [List.isEmpty_iff, List.drop_eq_nil_iff] at noFraction
      rw [String.toList_append, String.toList_ofList, List.take_of_length_le noFraction]
      have isZeros : exponent = (order.toNat + 1 - (Nat.toDigits 10 coefficient).length : ℕ) := by
        omega
      rw [isZeros]
      exact writes_whole _
    next hasFraction =>
      rw [List.isEmpty_iff, List.drop_eq_nil_iff, not_le] at hasFraction
      rw [String.toList_append, String.toList_append, String.toList_ofList, String.toList_ofList,
        String.toList_ofList, Nat.sub_eq_zero_of_le hasFraction.le, List.replicate_zero,
        List.append_nil, List.append_assoc]
      change Writes (List.take (order.toNat + 1) (Nat.toDigits 10 coefficient) ++
        '.' :: List.drop (order.toNat + 1) (Nat.toDigits 10 coefficient)) _
      refine writes_pointed ?_ ?_ ?_ ?_ ?_
      · rw [← List.length_pos_iff, List.length_take]
        omega
      · exact fun digit member => digits digit (List.mem_of_mem_take member)
      · exact fun digit member => digits digit (List.mem_of_mem_drop member)
      · rw [List.take_append_drop, isCoefficient]
      · rw [List.length_drop]
        omega

/-- The exponent is written with its sign and enough zeros in front. -/
theorem isExponent_padded (order : ℤ) (length : ℕ) :
    IsExponent ((if order < 0 then "e-" else "e+").toList ++
      padLeft length (Nat.toDigits 10 order.natAbs)) order := by
  have nonempty : padLeft length (Nat.toDigits 10 order.natAbs) ≠ [] :=
    List.append_ne_nil_of_right_ne_nil _ Nat.toDigits_ne_nil
  have all : ∀ digit ∈ padLeft length (Nat.toDigits 10 order.natAbs), isDigit digit = true :=
    List.forall_mem_append.mpr ⟨isDigit_of_mem_zeros, isDigit_of_mem_toDigits⟩
  have isValue : digitsValue (padLeft length (Nat.toDigits 10 order.natAbs)) = order.natAbs :=
    (digitsValue_zeros_append _ _).trans (digitsValue_toDigits _)
  split
  next below =>
    have isOrder : -(digitsValue (padLeft length (Nat.toDigits 10 order.natAbs)) : ℤ) = order := by
      omega
    have written := IsExponent.negative nonempty all
    rw [isOrder] at written
    exact written
  next above =>
    have isOrder : (digitsValue (padLeft length (Nat.toDigits 10 order.natAbs)) : ℤ) = order := by
      omega
    have written := IsExponent.positive nonempty all
    rw [isOrder] at written
    exact written

theorem writes_scientific {order : ℤ} (length : ℕ)
    (isOrder : exponent + ((Nat.toDigits 10 coefficient).length - 1 : ℕ) = order) :
    Writes (scientific length (Nat.toDigits 10 coefficient) order).toList
      ⟨coefficient, exponent⟩ := by
  have digits := @isDigit_of_mem_toDigits coefficient
  have isCoefficient := digitsValue_toDigits coefficient
  have padded := isExponent_padded order length
  unfold scientific
  rw [String.toList_append, String.toList_append, String.toList_ofList, String.toList_ofList,
    List.append_assoc]
  split
  next none => exact absurd none Nat.toDigits_ne_nil
  next digit single =>
    rw [single] at digits isCoefficient isOrder
    have literal := IsLiteral.parts (List.cons_ne_nil _ _) digits .none padded
    rw [List.append_nil, isCoefficient] at literal
    refine ⟨_, literal, ?_⟩
    congr 2
    rw [List.length_nil]
    rw [List.length_singleton] at isOrder
    omega
  next digit rest several isDigits =>
    rw [isDigits] at digits isCoefficient isOrder
    rw [List.forall_mem_cons] at digits
    have literal := IsLiteral.parts (List.cons_ne_nil digit [])
      (List.forall_mem_singleton.mpr digits.1) (.digits digits.2) padded
    have joined : digitsValue ([digit] ++ rest) = coefficient := isCoefficient
    rw [joined] at literal
    refine ⟨_, literal, ?_⟩
    congr 2
    rw [List.length_cons, Nat.add_sub_cancel] at isOrder
    omega

/-- A decimal is written as a literal of the same value. -/
theorem writes_write (decimal : Decimal) :
    Writes (Format.standard.write decimal).toList decimal := by
  unfold Format.write
  dsimp only
  split
  · exact writes_positional rfl
  · exact writes_scientific _ rfl

end Forms

end Decimal

end ExprCalculus
