import ExprCalculus.Proofs.Doubles.Whole

/-!
# Equality of whole doubles

The distance of two whole doubles is zero or at least one, though it may be rounded.  So
the tolerance tests, with a tolerance above zero and at most one, decide whether two whole
doubles are equal.
-/

namespace ExprCalculus

namespace Binary64

open Float.Model Float.Model.UnpackedFloat

variable {value other : Float} {number second : ℤ}

theorem IsWhole.isFinite (whole : IsWhole value number) : value.isFinite = true := by
  change (unpacked value).isFinite = true
  rcases whole.cases with ⟨_, parts, _⟩ | ⟨_, _, _, _, parts, _⟩ <;> rw [parts] <;> rfl

theorem IsWhole.defined (whole : IsWhole value number) : value.isNaN = false := by
  rw [isNaN_eq_false]
  rcases whole.cases with ⟨_, parts, _⟩ | ⟨_, _, _, _, parts, _⟩ <;> rw [parts] <;> exact nofun

/-- A rounded number is a zero only if the number is zero. -/
theorem IsRounded.isWhole_zero_iff (rounded : IsRounded value number) :
    IsWhole value 0 ↔ number = 0 := by
  constructor
  · intro whole
    by_contra nonzero
    have large := (rounded.large nonzero).2
    rw [whole.rank_eq_zero.2] at large
    exact absurd large (by decide)
  · rintro rfl
    exact rounded.exact ⟨_, isWhole_zero⟩

theorem IsWhole.rank_ne_zero (whole : IsWhole value number) (nonzero : number ≠ 0) :
    rank value ≠ 0 := by
  have large := (whole.isRounded.large nonzero).2
  have one : 0 < rank (ofInt 1) := by decide
  exact abs_pos.mp (one.trans_le large)

section Tolerance

variable {settings : Settings} (positive : 0.0 < settings.epsilon)
  (atMostOne : settings.epsilon ≤ 1.0)
include positive atMostOne

/-- A rounded number is apart from zero unless it is zero. -/
theorem IsRounded.apart_zero_iff (rounded : IsRounded value number) :
    settings.apart value (ofInt 0) = true ↔ number ≠ 0 := by
  rw [lt_iff] at positive
  rw [le_iff] at atMostOne
  have one : rank 1.0 = rank (ofInt 1) := rfl
  have zero : rank 0.0 = 0 := rfl
  rw [apart_eq_true, sub_zero_eq, le_iff, isNaN_abs]
  by_cases isZero : number = 0
  · subst isZero
    obtain ⟨defined, rankZero⟩ := (rounded.exact ⟨_, isWhole_zero⟩).rank_eq_zero
    rw [rank_abs _ defined, rankZero, abs_zero]
    omega
  · obtain ⟨defined, large⟩ := rounded.large isZero
    rw [rank_abs _ defined]
    exact iff_of_true ⟨positive.2.1, defined, by omega⟩ isZero

/-- Whole doubles are near each other if they are equal. -/
theorem IsWhole.near_iff (whole : IsWhole value number) (otherWhole : IsWhole other second) :
    settings.near value other = true ↔ number = second := by
  have rounded := whole.sub otherWhole
  rw [lt_iff] at positive
  rw [le_iff] at atMostOne
  have one : rank 1.0 = rank (ofInt 1) := rfl
  have zero : rank 0.0 = 0 := rfl
  rw [near_eq_true, lt_iff, isNaN_abs]
  by_cases isZero : number - second = 0
  · rw [isZero] at rounded
    obtain ⟨defined, rankZero⟩ := (rounded.exact ⟨_, isWhole_zero⟩).rank_eq_zero
    rw [rank_abs _ defined, rankZero, abs_zero]
    exact iff_of_true ⟨defined, positive.2.1, by omega⟩ (by omega)
  · obtain ⟨defined, large⟩ := rounded.large isZero
    rw [rank_abs _ defined]
    omega

/-- Whole doubles that count as the same are equal. -/
theorem IsWhole.eq_of_same (whole : IsWhole value number) (otherWhole : IsWhole other second)
    (same : settings.same value other = true) : number = second := by
  unfold Settings.same at same
  rw [whole.defined, otherWhole.defined, Bool.or_self, if_neg Bool.false_ne_true,
    Bool.or_eq_true] at same
  rcases same with equal | near
  · have sameRank := (beq_iff.mp equal).2.2
    by_cases isZero : number = 0
    · subst isZero
      by_contra nonzero
      exact otherWhole.rank_ne_zero (Ne.symm nonzero) (sameRank ▸ whole.rank_eq_zero.2)
    · obtain rfl := eq_of_rank_eq sameRank (whole.rank_ne_zero isZero)
      exact whole.unique otherWhole
  · exact (whole.near_iff positive atMostOne otherWhole).mp near

end Tolerance

end Binary64

end ExprCalculus
