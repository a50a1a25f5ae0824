import ExprCalculus.Proofs.Doubles.Unpacking

/-!
# The order of doubles

Consecutive doubles have consecutive bits, so the bits of the magnitude with the
sign of the double, its rank, order the defined doubles.  Both zeros have rank
zero.  Comparisons, negation and absolute value are read off the ranks.
-/

namespace ExprCalculus

namespace Binary64

open Float.Model Float.Model.UnpackedFloat

def rankOfParts (parts : UnpackedFloat) : Int :=
  (signPart parts).apply (magnitudeBits parts)

/-- The place of a double among all doubles. -/
def rank (value : Float) : Int :=
  rankOfParts (unpacked value)

theorem magnitudeBits_finite_lt {sign : Sign} {coefficient : Nat} {exponent : Int}
    {positive : 0 < coefficient}
    (canonical : IsCanonical (.finite sign coefficient exponent positive)) :
    magnitudeBits (.finite sign coefficient exponent positive) < 2047 * 2 ^ 52 := by
  obtain ⟨small, least, most, full⟩ := canonical
  rw [magnitudeBits]
  omega

/-- Of two finite magnitudes the one with the larger exponent is larger, and with
the same exponent the one with the larger coefficient. -/
theorem compare_magnitudes {first second : Sign} {firstCoefficient secondCoefficient : Nat}
    {firstExponent secondExponent : Int} {firstPositive : 0 < firstCoefficient}
    {secondPositive : 0 < secondCoefficient}
    (firstCanonical :
      IsCanonical (.finite first firstCoefficient firstExponent firstPositive))
    (secondCanonical :
      IsCanonical (.finite second secondCoefficient secondExponent secondPositive)) :
    (compare firstExponent secondExponent).then (compare firstCoefficient secondCoefficient) =
      compare (magnitudeBits (.finite first firstCoefficient firstExponent firstPositive) : Int)
        (magnitudeBits (.finite second secondCoefficient secondExponent secondPositive)) := by
  obtain ⟨firstSmall, firstLeast, -, firstFull⟩ := firstCanonical
  obtain ⟨secondSmall, secondLeast, -, secondFull⟩ := secondCanonical
  rw [magnitudeBits, magnitudeBits]
  rcases lt_trichotomy firstExponent secondExponent with less | rfl | greater
  · rw [compare_lt_iff_lt.mpr less, eq_comm]
    apply compare_lt_iff_lt.mpr
    omega
  · rw [compare_eq_iff_eq.mpr rfl]
    rcases lt_trichotomy firstCoefficient secondCoefficient with less | rfl | greater
    · rw [compare_lt_iff_lt.mpr less, eq_comm]
      apply compare_lt_iff_lt.mpr
      omega
    · rw [compare_eq_iff_eq.mpr rfl, eq_comm]
      exact compare_eq_iff_eq.mpr rfl
    · rw [compare_gt_iff_gt.mpr greater, eq_comm]
      apply compare_gt_iff_gt.mpr
      omega
  · rw [compare_gt_iff_gt.mpr greater, eq_comm]
    apply compare_gt_iff_gt.mpr
    omega

theorem magnitudeBits_finite_pos (sign : Sign) {coefficient : Nat} (exponent : Int)
    (positive : 0 < coefficient) :
    0 < magnitudeBits (.finite sign coefficient exponent positive) := by
  rw [magnitudeBits]
  omega

theorem compare_of_lt {first second : Int} (less : first < second) :
    some Ordering.lt = some (compare first second) :=
  congrArg some (compare_lt_iff_lt.mpr less).symm

theorem compare_of_gt {first second : Int} (greater : second < first) :
    some Ordering.gt = some (compare first second) :=
  congrArg some (compare_gt_iff_gt.mpr greater).symm

theorem compare_neg_neg (first second : Int) :
    compare (-first) (-second) = (compare first second).swap := by
  rcases lt_trichotomy first second with less | rfl | greater
  · rw [compare_lt_iff_lt.mpr less, compare_gt_iff_gt.mpr (by omega : -first > -second)]
    rfl
  · rw [compare_eq_iff_eq.mpr rfl, compare_eq_iff_eq.mpr rfl]
    rfl
  · rw [compare_gt_iff_gt.mpr greater, compare_lt_iff_lt.mpr (by omega : -first < -second)]
    rfl

theorem rank_finite_positive {coefficient : Nat} {exponent : Int} {positive : 0 < coefficient}
    (canonical : IsCanonical (.finite .positive coefficient exponent positive)) :
    0 < rankOfParts (.finite .positive coefficient exponent positive) ∧
      rankOfParts (.finite .positive coefficient exponent positive) < 2047 * 2 ^ 52 := by
  have small := magnitudeBits_finite_lt canonical
  have large := magnitudeBits_finite_pos .positive exponent positive
  change 0 < ((magnitudeBits (.finite .positive coefficient exponent positive) : Nat) : Int) ∧
    ((magnitudeBits (.finite .positive coefficient exponent positive) : Nat) : Int) < _
  omega

theorem rank_finite_negative {coefficient : Nat} {exponent : Int} {positive : 0 < coefficient}
    (canonical : IsCanonical (.finite .negative coefficient exponent positive)) :
    -(2047 * 2 ^ 52) < rankOfParts (.finite .negative coefficient exponent positive) ∧
      rankOfParts (.finite .negative coefficient exponent positive) < 0 := by
  have small := magnitudeBits_finite_lt canonical
  have large := magnitudeBits_finite_pos .negative exponent positive
  change _ < -((magnitudeBits (.finite .negative coefficient exponent positive) : Nat) : Int) ∧
    -((magnitudeBits (.finite .negative coefficient exponent positive) : Nat) : Int) < 0
  omega

theorem rank_finite {sign : Sign} {coefficient : Nat} {exponent : Int} {positive : 0 < coefficient}
    (canonical : IsCanonical (.finite sign coefficient exponent positive)) :
    -(2047 * 2 ^ 52) < rankOfParts (.finite sign coefficient exponent positive) ∧
      rankOfParts (.finite sign coefficient exponent positive) < 2047 * 2 ^ 52 := by
  cases sign with
  | positive =>
      have bounds := rank_finite_positive canonical
      omega
  | negative =>
      have bounds := rank_finite_negative canonical
      omega

theorem rank_zero (sign : Sign) : rankOfParts (.zero sign) = 0 := by
  cases sign <;> rfl

theorem rank_infinity_positive : rankOfParts (.infinity .positive) = 2047 * 2 ^ 52 :=
  rfl

theorem rank_infinity_negative : rankOfParts (.infinity .negative) = -(2047 * 2 ^ 52) :=
  rfl

/-- Comparing defined doubles is comparing their ranks. -/
theorem compare_parts {first second : UnpackedFloat} (firstCanonical : IsCanonical first)
    (secondCanonical : IsCanonical second) (firstDefined : first ≠ .notANumber)
    (secondDefined : second ≠ .notANumber) :
    first.compare second = some (compare (rankOfParts first) (rankOfParts second)) := by
  match first, second with
  | .notANumber, _ => exact absurd rfl firstDefined
  | _, .notANumber => exact absurd rfl secondDefined
  | .infinity firstSign, .infinity secondSign => cases firstSign <;> cases secondSign <;> rfl
  | .infinity firstSign, .zero secondSign => cases firstSign <;> cases secondSign <;> rfl
  | .zero firstSign, .infinity secondSign => cases firstSign <;> cases secondSign <;> rfl
  | .zero firstSign, .zero secondSign => cases firstSign <;> cases secondSign <;> rfl
  | .infinity .positive, .finite _ _ _ _ =>
      have bounds := rank_finite secondCanonical
      exact compare_of_gt (by rw [rank_infinity_positive]; omega)
  | .infinity .negative, .finite _ _ _ _ =>
      have bounds := rank_finite secondCanonical
      exact compare_of_lt (by rw [rank_infinity_negative]; omega)
  | .finite _ _ _ _, .infinity .positive =>
      have bounds := rank_finite firstCanonical
      exact compare_of_lt (by rw [rank_infinity_positive]; omega)
  | .finite _ _ _ _, .infinity .negative =>
      have bounds := rank_finite firstCanonical
      exact compare_of_gt (by rw [rank_infinity_negative]; omega)
  | .finite .positive _ _ _, .zero sign =>
      have bounds := rank_finite_positive firstCanonical
      exact compare_of_gt (by rw [rank_zero]; omega)
  | .finite .negative _ _ _, .zero sign =>
      have bounds := rank_finite_negative firstCanonical
      exact compare_of_lt (by rw [rank_zero]; omega)
  | .zero sign, .finite .positive _ _ _ =>
      have bounds := rank_finite_positive secondCanonical
      exact compare_of_lt (by rw [rank_zero]; omega)
  | .zero sign, .finite .negative _ _ _ =>
      have bounds := rank_finite_negative secondCanonical
      exact compare_of_gt (by rw [rank_zero]; omega)
  | .finite .negative _ _ _, .finite .positive _ _ _ =>
      have bounds := rank_finite_negative firstCanonical
      have otherBounds := rank_finite_positive secondCanonical
      exact compare_of_lt (by omega)
  | .finite .positive _ _ _, .finite .negative _ _ _ =>
      have bounds := rank_finite_positive firstCanonical
      have otherBounds := rank_finite_negative secondCanonical
      exact compare_of_gt (by omega)
  | .finite .positive _ _ _, .finite .positive _ _ _ =>
      exact congrArg some (compare_magnitudes firstCanonical secondCanonical)
  | .finite .negative _ _ _, .finite .negative _ _ _ =>
      refine congrArg some ?_
      rw [compare_magnitudes firstCanonical secondCanonical, ← compare_neg_neg]
      rfl

section Comparisons

variable {first second : Float}

theorem isNaN_eq_false : first.isNaN = false ↔ unpacked first ≠ .notANumber := by
  change (unpacked first).isNaN = false ↔ _
  cases unpacked first <;> simp [UnpackedFloat.isNaN]

theorem compare_unpacked (first second : Float) :
    (unpacked first).compare (unpacked second) =
      if first.isNaN = false ∧ second.isNaN = false then
        some (compare (rank first) (rank second))
      else
        none := by
  by_cases firstDefined : unpacked first = .notANumber
  · have undefined : ¬ (first.isNaN = false ∧ second.isNaN = false) :=
      fun defined => isNaN_eq_false.mp defined.1 firstDefined
    rw [if_neg undefined, firstDefined]
    rfl
  by_cases secondDefined : unpacked second = .notANumber
  · have undefined : ¬ (first.isNaN = false ∧ second.isNaN = false) :=
      fun defined => isNaN_eq_false.mp defined.2 secondDefined
    rw [if_neg undefined, secondDefined]
    cases unpacked first <;> rfl
  rw [if_pos ⟨isNaN_eq_false.mpr firstDefined, isNaN_eq_false.mpr secondDefined⟩]
  exact compare_parts (isCanonical_unpacked first) (isCanonical_unpacked second) firstDefined
    secondDefined

/-- A test of the comparison of two doubles that refuses undefined ones is a relation between
the ranks of defined ones. -/
theorem tested_iff (accepts : Option Ordering → Bool) (refuses : accepts none = false)
    {relation : Prop}
    (ranked : accepts (some (compare (rank first) (rank second))) = true ↔ relation) :
    accepts ((unpacked first).compare (unpacked second)) = true ↔
      first.isNaN = false ∧ second.isNaN = false ∧ relation := by
  rw [compare_unpacked]
  by_cases defined : first.isNaN = false ∧ second.isNaN = false
  · rw [if_pos defined, ranked]
    simp only [defined.1, defined.2, true_and]
  · rw [if_neg defined, refuses, ← and_assoc]
    exact ⟨nofun, fun both => absurd both.1 defined⟩

/-- A double lies below another one if both are defined and its rank is smaller. -/
theorem lt_iff : first < second ↔
    first.isNaN = false ∧ second.isNaN = false ∧ rank first < rank second := by
  have compared : first < second ↔
      ((unpacked first).compare (unpacked second) == some .lt) = true := decide_eq_true_iff
  have ranked : (some (compare (rank first) (rank second)) == some .lt) = true ↔
      rank first < rank second := by
    rw [beq_iff_eq, Option.some.injEq, compare_lt_iff_lt]
  rw [compared]
  exact tested_iff (· == some .lt) rfl ranked

theorem le_iff : first ≤ second ↔
    first.isNaN = false ∧ second.isNaN = false ∧ rank first ≤ rank second := by
  have compared : first ≤ second ↔
      ((unpacked first).compare (unpacked second)).any (·.isLE) = true := decide_eq_true_iff
  have ranked : (compare (rank first) (rank second)).isLE = true ↔ rank first ≤ rank second :=
    Std.isLE_compare
  rw [compared]
  exact tested_iff (Option.any (·.isLE)) rfl ranked

theorem beq_iff : (first == second) = true ↔
    first.isNaN = false ∧ second.isNaN = false ∧ rank first = rank second := by
  have ranked : (some (compare (rank first) (rank second)) == some .eq) = true ↔
      rank first = rank second := by
    rw [beq_iff_eq, Option.some.injEq, compare_eq_iff_eq]
  exact tested_iff (· == some .eq) rfl ranked

end Comparisons

section Signs

variable (value : Float)

theorem unpacked_neg : unpacked (-value) = (unpacked value).neg := by
  have canonical := isCanonical_unpacked value
  change unpacked (packed (unpacked value).neg) = _
  apply unpacked_packed
  cases parts : unpacked value with
  | finite sign coefficient exponent positive =>
      rw [parts] at canonical
      exact canonical
  | _ => trivial

theorem unpacked_abs : unpacked value.abs = (unpacked value).abs := by
  have canonical := isCanonical_unpacked value
  change unpacked (packed (unpacked value).abs) = _
  apply unpacked_packed
  cases parts : unpacked value with
  | finite sign coefficient exponent positive =>
      rw [parts] at canonical
      exact canonical
  | _ => trivial

theorem isNaN_eq (value : Float) : value.isNaN = (unpacked value).isNaN :=
  rfl

@[simp]
theorem isNaN_abs : value.abs.isNaN = value.isNaN := by
  rw [isNaN_eq, isNaN_eq, unpacked_abs]
  cases unpacked value <;> rfl

theorem rank_neg (defined : value.isNaN = false) : rank (-value) = -rank value := by
  rw [isNaN_eq_false] at defined
  rw [rank, rank, unpacked_neg]
  cases parts : unpacked value with
  | notANumber => exact absurd parts defined
  | infinity sign | zero sign => cases sign <;> rfl
  | finite sign coefficient exponent positive =>
      cases sign with
      | negative => exact (neg_neg _).symm
      | positive => rfl

theorem rank_abs (defined : value.isNaN = false) : rank value.abs = |rank value| := by
  rw [isNaN_eq_false] at defined
  rw [rank, rank, unpacked_abs]
  cases parts : unpacked value with
  | notANumber => exact absurd parts defined
  | infinity sign | zero sign => cases sign <;> rfl
  | finite sign coefficient exponent positive =>
      cases sign with
      | negative => exact ((abs_neg _).trans (abs_of_nonneg (Int.natCast_nonneg _))).symm
      | positive => exact (abs_of_nonneg (Int.natCast_nonneg _)).symm

theorem abs_neg_eq : (-value).abs = value.abs := by
  apply unpacked_injective
  rw [unpacked_abs, unpacked_abs, unpacked_neg]
  cases unpacked value <;> rfl

end Signs

end Binary64

end ExprCalculus
