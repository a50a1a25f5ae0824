import ExprCalculus.Proofs.Factoring.WholeNumbers
import ExprCalculus.Proofs.Polynomial.Encoding

/-!
# Whole coefficients written and read again

Whole doubles other than zero are legible coefficients at every power that is a double
itself: the tolerance tests tell whole doubles apart, and the exponent that is written is the
power.  So a polynomial with whole coefficients is read as it was written.
-/

namespace ExprCalculus

namespace Doubles

open Binary64

variable {value other : Float}

section Exponents

theorem one_le_iff {number : ℚ} (isValue : toRat? value = some number) :
    1.0 ≤ value ↔ 1 ≤ number := by
  have one : toRat? 1.0 = some 1 := by decide +kernel
  have oneDefined : (1.0 : Float).isNaN = false := rfl
  obtain ⟨_, _, _, parts⟩ := exists_isParts isValue
  rw [← not_lt, ← lt_iff_of_toRat isValue one, lt_iff, le_iff]
  simp only [parts.defined, oneDefined, true_and, not_lt]

/-- The exponents are the doubles that are positive whole numbers. -/
theorem exponent?_eq_some_iff {power : ℕ} :
    exponent? value = .ok (some power) ↔ IsWhole value power ∧ 0 < power := by
  unfold exponent?
  constructor
  · intro isExponent
    split at isExponent
    next large =>
      obtain ⟨number, isValue, same⟩ := except_bind_eq_ok.mp isExponent
      have isValue := exactly_eq_ok.mp isValue
      obtain ⟨denominator, isPower⟩ := Option.ite_none_right_eq_some.mp (Except.ok.inj same)
      have atLeastOne := (one_le_iff isValue).mp large
      have isWhole := (Rat.den_eq_one_iff number).mp denominator
      rw [← isWhole] at atLeastOne isValue
      have positive : 0 < number.num := by exact_mod_cast atLeastOne
      have isNumber : number.num = power :=
        (Int.toNat_of_nonneg positive.le).symm.trans (congrArg _ (Option.some.inj isPower))
      rw [isNumber] at isValue positive
      exact ⟨isValue, Int.natCast_pos.mp positive⟩
    next => cases isExponent
  · rintro ⟨whole, positive⟩
    rw [if_pos ((one_le_iff whole).mpr (by exact_mod_cast positive)), exactly_eq_ok.mpr whole]
    rfl

end Exponents

section Legible

variable {settings : Settings} {number second : ℤ} {power : ℕ}

variable (positive : 0.0 < settings.epsilon) (atMostOne : settings.epsilon ≤ 1.0)
include positive atMostOne

theorem eq_of_near (whole : IsWhole value number) (nonzero : number ≠ 0)
    (otherWhole : IsWhole other second) (near : settings.near value other = true) :
    value = other := by
  obtain rfl := (whole.near_iff positive atMostOne otherWhole).mp near
  exact whole.eq_of_ne_zero otherWhole nonzero

/-- A power that is a double is written as this double. -/
theorem exists_spells (representable : Representable power) :
    ∃ exponent, Monomial.Spells (factoring settings) exponent power := by
  obtain ⟨exponent, isExponent, whole⟩ := exists_ofRat?_of_representable representable
  rw [Int.cast_natCast] at isExponent
  refine ⟨exponent, ?_, fun isPositive => ?_, fun other another isOther same => ?_⟩
  · change nearestTo power = _
    unfold nearestTo
    rw [isExponent]
  · exact exponent?_eq_some_iff.mpr ⟨whole, isPositive⟩
  · obtain ⟨otherWhole, -⟩ := exponent?_eq_some_iff.mp isOther
    exact_mod_cast whole.eq_of_same positive atMostOne otherWhole same

/-- A whole coefficient other than zero is legible at a power that is a double. -/
theorem isLegible_of_isWhole (whole : IsWhole value number) (nonzero : number ≠ 0)
    (representable : Representable power) :
    Monomial.IsLegible (factoring settings) value power where
  snap := by
    obtain ⟨snapped, isSnapped, snappedWhole⟩ := exists_snap_of_isWhole settings whole
    rw [isSnapped, snappedWhole.eq_of_ne_zero whole nonzero]
  near_one := eq_of_near positive atMostOne whole nonzero isWhole_one
  near_neg_one := eq_of_near positive atMostOne whole nonzero
    (isWhole_ofInt (representable_of_small (by decide)))
  zero_add := by
    have sum := (isWhole_ofInt ⟨0.0, isWhole_zero⟩).add whole
    rw [zero_add] at sum
    exact (sum.exact ⟨value, whole⟩).eq_of_ne_zero whole nonzero
  exponent := exists_spells positive atMostOne representable

end Legible

section Lists

variable {coefficients : List Float} {numbers : List ℤ}
  (whole : List.Forall₂ IsWhole coefficients numbers)
include whole

theorem exists_number {power : ℕ} (isCoefficient : coefficients[power]? = some value) :
    ∃ number, numbers[power]? = some number ∧ IsWhole value number := by
  induction whole generalizing power with
  | nil => cases isCoefficient
  | cons isFirst _ ih =>
      cases power with
      | zero =>
          cases isCoefficient
          exact ⟨_, rfl, isFirst⟩
      | succ power => exact ih isCoefficient

variable {settings : Settings} (positive : 0.0 < settings.epsilon)
  (atMostOne : settings.epsilon ≤ 1.0)
include positive atMostOne

/-- The coefficients that count are those that are not zero. -/
theorem map_orZero : coefficients.map (Monomial.orZero (factoring settings)) =
    numbers.map ofInt := by
  induction whole with
  | nil => rfl
  | @cons coefficient number _ _ isFirst _ ih =>
      rw [List.map_cons, List.map_cons, ih]
      refine congrArg (· :: _) ?_
      have counts : settings.apart coefficient (ofInt 0) = true ↔ number ≠ 0 :=
        isFirst.isRounded.apart_zero_iff positive atMostOne
      change (if settings.apart coefficient (ofInt 0) then coefficient else ofInt 0) = ofInt number
      -- A zero of either sign is found as the positive one.
      split
      next isApart => exact isFirst.eq_of_ne_zero (isWhole_ofInt ⟨_, isFirst⟩) (counts.mp isApart)
      next notApart => rw [not_not.mp (mt counts.mpr notApart)]

end Lists

/-- A polynomial with whole coefficients, the last of them not zero, is read as it was
written.  The powers have to be doubles as well, as they all are unless there are more than
`2 ^ 53` coefficients. -/
theorem polynomial_read_back {settings : Settings} (positive : 0.0 < settings.epsilon)
    (atMostOne : settings.epsilon ≤ 1.0) (name : String) {coefficients : List Float}
    {numbers : List ℤ} (whole : List.Forall₂ IsWhole coefficients numbers)
    (nonempty : numbers ≠ []) (lastNonzero : numbers.getLast nonempty ≠ 0)
    (powers : ∀ (power : ℕ) (number : ℤ), numbers[power]? = some number → number ≠ 0 →
      Representable power) :
    Monomial.ReadsBack (factoring settings) name coefficients (numbers.map ofInt) := by
  have sameLength := whole.length_eq
  have several : coefficients ≠ [] := by
    rw [← List.length_pos_iff, sameLength]
    exact List.length_pos_iff.mpr nonempty
  rw [← map_orZero whole positive atMostOne]
  refine Monomial.readsBack _ name (isTolerant_doubles positive atMostOne)
    (isBalanced_doubles positive) several ?_ ?_
  · have isLast := List.getLast?_eq_some_getLast several
    rw [List.getLast?_eq_getElem?] at isLast
    obtain ⟨number, isNumber, lastWhole⟩ := exists_number whole isLast
    rw [sameLength, ← List.getLast?_eq_getElem?, List.getLast?_eq_some_getLast nonempty] at isNumber
    obtain rfl := Option.some.inj isNumber
    exact (lastWhole.isRounded.apart_zero_iff positive atMostOne).mpr lastNonzero
  · rintro ⟨coefficient, power⟩ isKept
    obtain ⟨isCoefficient, isApart⟩ := Monomial.mem_kept.mp isKept
    obtain ⟨number, isNumber, isWhole⟩ := exists_number whole isCoefficient
    have nonzero := (isWhole.isRounded.apart_zero_iff positive atMostOne).mp isApart
    exact isLegible_of_isWhole positive atMostOne isWhole nonzero
      (powers power number isNumber nonzero)

/-- The polynomial `-3 * x ^ 3 + x ^ 2 - 1`. -/
theorem cubic_read_back :
    let numbers : List ℤ := [-1, 0, 1, -3]
    0.0 < Settings.standard.epsilon ∧ Settings.standard.epsilon ≤ 1.0 ∧
      List.Forall₂ IsWhole (numbers.map ofInt) numbers ∧
      (∃ nonempty : numbers ≠ [], numbers.getLast nonempty ≠ 0) ∧
      (∀ (power : ℕ) (number : ℤ), numbers[power]? = some number → number ≠ 0 →
        Representable power) ∧
      Monomial.ReadsBack (factoring .standard) "x" (numbers.map ofInt) (numbers.map ofInt) := by
  intro numbers
  have positive : 0.0 < Settings.standard.epsilon := by decide +kernel
  have atMostOne : Settings.standard.epsilon ≤ 1.0 := by decide +kernel
  have small : ∀ number ∈ numbers, number.natAbs < 2 ^ 53 := by decide
  have whole : List.Forall₂ IsWhole (numbers.map ofInt) numbers := by
    rw [List.forall₂_map_left_iff, List.forall₂_same]
    exact fun number member => isWhole_ofInt (representable_of_small (small number member))
  have nonempty : numbers ≠ [] := List.cons_ne_nil _ _
  have lastNonzero : numbers.getLast nonempty ≠ 0 := by simp [numbers]
  have powers (power : ℕ) (number : ℤ) (isNumber : numbers[power]? = some number)
      (_ : number ≠ 0) : Representable power := by
    obtain ⟨inside, -⟩ := List.getElem?_eq_some_iff.mp isNumber
    have short : numbers.length = 4 := rfl
    exact representable_of_small (by omega)
  exact ⟨positive, atMostOne, whole, ⟨nonempty, lastNonzero⟩, powers,
    polynomial_read_back positive atMostOne "x" whole nonempty lastNonzero powers⟩

end Doubles

end ExprCalculus
