import ExprCalculus.Proofs.Simplification.Stability
import Mathlib.Data.List.Induction

/-!
# Collected terms

A sum is rebuilt from merged terms one term at a time, and every prefix of it is
a sum that was rebuilt in the same way.  Reading a rebuilt sum gives the terms
back, except that a coefficient near one or minus one, which is not written, is
read as exactly one or minus one; and that changes nothing when the sum is
rebuilt again.  So a rebuilt sum is stable, whatever the expression was that its
terms came from.
-/

namespace ExprCalculus

namespace Arithmetic

variable {α : Type}

/-- What the rules need of an arithmetic.  Nothing is asked of the sums and
products of constants in general, and nearness need not be transitive. -/
structure IsTolerant (arithmetic : Arithmetic α) : Prop where
  mul_one (value : α) : arithmetic.mul value arithmetic.one = value
  one_mul (value : α) : arithmetic.mul arithmetic.one value = value
  neg_one_mul_neg (value : α) :
    arithmetic.mul (arithmetic.neg arithmetic.one) (arithmetic.neg value) = value
  neg_neg_one : arithmetic.neg (arithmetic.neg arithmetic.one) = arithmetic.one
  one_near_one : arithmetic.near arithmetic.one arithmetic.one = true
  neg_one_near_neg_one :
    arithmetic.near (arithmetic.neg arithmetic.one) (arithmetic.ofInt (-1)) = true
  neg_one_not_near_one :
    arithmetic.near (arithmetic.neg arithmetic.one) arithmetic.one = false
  one_apart : arithmetic.apart arithmetic.one arithmetic.zero = true
  neg_one_apart : arithmetic.apart (arithmetic.neg arithmetic.one) arithmetic.zero = true
  one_not_negative : arithmetic.isNegative arithmetic.one = false
  neg_one_negative : arithmetic.isNegative (arithmetic.neg arithmetic.one) = true
  not_near_zero (value : α) (apart : arithmetic.apart value arithmetic.zero = true) :
    arithmetic.near value arithmetic.zero = false
  neg_not_near_zero (value : α) (apart : arithmetic.apart value arithmetic.zero = true) :
    arithmetic.near (arithmetic.neg value) arithmetic.zero = false
  not_near_neg_one (value : α) (positive : arithmetic.isNegative value = false) :
    arithmetic.near value (arithmetic.ofInt (-1)) = false
  neg_not_near_neg_one (value : α) (negative : arithmetic.isNegative value = true) :
    arithmetic.near (arithmetic.neg value) (arithmetic.ofInt (-1)) = false

end Arithmetic

namespace Term

variable {α : Type} (arithmetic : Arithmetic α)

/-- The terms of a sum that was merged from a stable expression. -/
structure Collected (terms : List (Term α)) : Prop where
  distinct : Distinct arithmetic terms
  atomic : ∀ term ∈ terms, ∀ base ∈ term.base?, isAtomic base = true
  stable : ∀ term ∈ terms, ∀ base ∈ term.base?, Simplification.Stable arithmetic base
  nonzero : ∀ term ∈ terms, arithmetic.apart term.coefficient arithmetic.zero = true

theorem collected_split {expression : Expr α}
    (stable : ∀ term ∈ flatten arithmetic arithmetic.one expression, ∀ base ∈ term.base?,
      Simplification.Stable arithmetic base) :
    Collected arithmetic (split arithmetic expression) where
  distinct := distinct_merge arithmetic _
  atomic term member := isAtomic_of_mem_split arithmetic member
  stable term member := by
    obtain ⟨other, found, same⟩ := base_of_mem_merge arithmetic member
    rw [same]
    exact stable other found
  nonzero term member := (List.mem_filter.mp member).2

namespace Collected

variable {arithmetic} {terms initial : List (Term α)} {last : Term α}

theorem withoutLast (collected : Collected arithmetic (initial ++ [last])) :
    Collected arithmetic initial where
  distinct := (List.pairwise_append.mp collected.distinct).1
  atomic term member := collected.atomic term (List.mem_append_left _ member)
  stable term member := collected.stable term (List.mem_append_left _ member)
  nonzero term member := collected.nonzero term (List.mem_append_left _ member)

theorem last_different (collected : Collected arithmetic (initial ++ [last])) :
    ∀ first ∈ initial, sameBase arithmetic first.base? last.base? = false :=
  fun first member =>
    (List.pairwise_append.mp collected.distinct).2.2 first member last List.mem_cons_self

end Collected

theorem join_concat {initial : List (Term α)} (nonempty : initial ≠ []) (last : Term α) :
    join arithmetic (initial ++ [last]) = appendTo arithmetic (join arithmetic initial) last := by
  cases initial with
  | nil => exact absurd rfl nonempty
  | cons first rest => rw [List.cons_append, join, join, List.foldl_append]; rfl

section Reading

variable {arithmetic} (tolerant : arithmetic.IsTolerant)
include tolerant

/-- A term that is written without a sign is read back with the coefficient it is
written with, which is one if no coefficient is written. -/
theorem exists_reading {coefficient : α} {base? : Option (Expr α)}
    (atomic : ∀ base ∈ base?, isAtomic base = true)
    (unsigned : arithmetic.near coefficient arithmetic.one = true ∨
      arithmetic.near coefficient (arithmetic.ofInt (-1)) = false) :
    ∃ reading, (reading = coefficient ∨ reading = arithmetic.one) ∧
      toExpr arithmetic reading base? = toExpr arithmetic coefficient base? ∧
      ∀ scale, flatten arithmetic scale (toExpr arithmetic coefficient base?) =
        [⟨arithmetic.mul scale reading, base?⟩] := by
  cases base? with
  | none => exact ⟨coefficient, .inl rfl, rfl, fun scale => flatten_const arithmetic scale _⟩
  | some base =>
      have baseAtomic : isAtomic base = true := atomic base rfl
      by_cases nearOne : arithmetic.near coefficient arithmetic.one = true
      · have written : toExpr arithmetic coefficient (some base) = base := by
          rw [toExpr, if_pos nearOne]
        refine ⟨arithmetic.one, .inr rfl, ?_, fun scale => ?_⟩
        · rw [written, toExpr, if_pos tolerant.one_near_one]
        · rw [written, flatten_of_isAtomic arithmetic scale baseAtomic]
      · have notMinus := unsigned.resolve_left nearOne
        have written : toExpr arithmetic coefficient (some base) = .const coefficient * base := by
          rw [toExpr, if_neg nearOne, if_neg (by simp [notMinus])]
        refine ⟨coefficient, .inl rfl, rfl, fun scale => ?_⟩
        rw [written, flatten_multiple arithmetic scale _ baseAtomic, tolerant.mul_one]

/-- The first term of a rebuilt sum is read back as a term that is written alike. -/
theorem exists_reading_first {coefficient : α} {base? : Option (Expr α)}
    (atomic : ∀ base ∈ base?, isAtomic base = true)
    (nonzero : arithmetic.apart coefficient arithmetic.zero = true) :
    ∃ reading, flatten arithmetic arithmetic.one (toExpr arithmetic coefficient base?) =
        [⟨reading, base?⟩] ∧
      toExpr arithmetic reading base? = toExpr arithmetic coefficient base? ∧
      arithmetic.apart reading arithmetic.zero = true := by
  by_cases unsigned : arithmetic.near coefficient arithmetic.one = true ∨
      arithmetic.near coefficient (arithmetic.ofInt (-1)) = false
  · obtain ⟨reading, read, same, flat⟩ := exists_reading tolerant atomic unsigned
    refine ⟨reading, ?_, same, ?_⟩
    · rw [flat, tolerant.one_mul]
    · rcases read with rfl | rfl
      · exact nonzero
      · exact tolerant.one_apart
  · simp only [not_or, Bool.not_eq_true, Bool.not_eq_false] at unsigned
    obtain ⟨notOne, minus⟩ := unsigned
    cases base? with
    | none =>
        refine ⟨coefficient, ?_, rfl, nonzero⟩
        rw [toExpr, flatten_const, tolerant.one_mul]
    | some base =>
        have written : toExpr arithmetic coefficient (some base) = -base := by
          rw [toExpr, if_neg (by simp [notOne]), if_pos minus]
        refine ⟨arithmetic.neg arithmetic.one, ?_, ?_, tolerant.neg_one_apart⟩
        · rw [written, flatten_neg, flatten_of_isAtomic arithmetic _ (atomic base rfl),
            tolerant.mul_one]
        · rw [written, toExpr, if_neg (by simp [tolerant.neg_one_not_near_one]),
            if_pos tolerant.neg_one_near_neg_one]

/-- A later term of a rebuilt sum is read back as a term that is added alike. -/
theorem exists_reading_later (sum : Expr α) {term : Term α}
    (atomic : ∀ base ∈ term.base?, isAtomic base = true)
    (nonzero : arithmetic.apart term.coefficient arithmetic.zero = true) :
    ∃ reading, flatten arithmetic arithmetic.one (appendTo arithmetic sum term) =
        flatten arithmetic arithmetic.one sum ++ [⟨reading, term.base?⟩] ∧
      (∀ other, appendTo arithmetic other ⟨reading, term.base?⟩ =
        appendTo arithmetic other term) ∧
      arithmetic.apart reading arithmetic.zero = true := by
  by_cases negative : arithmetic.isNegative term.coefficient = true
  · have unsigned := tolerant.neg_not_near_neg_one term.coefficient negative
    obtain ⟨reading, read, same, flat⟩ := exists_reading tolerant atomic (.inr unsigned)
    refine ⟨arithmetic.mul (arithmetic.neg arithmetic.one) reading, ?_, ?_, ?_⟩
    · rw [appendTo, if_pos negative, flatten_sub, flat]
    · intro other
      rw [appendTo, appendTo, if_pos negative, ← same]
      rcases read with rfl | rfl
      · rw [tolerant.neg_one_mul_neg, if_pos negative]
      · rw [tolerant.mul_one, if_pos tolerant.neg_one_negative, tolerant.neg_neg_one]
    · rcases read with rfl | rfl
      · rw [tolerant.neg_one_mul_neg]
        exact nonzero
      · rw [tolerant.mul_one]
        exact tolerant.neg_one_apart
  · have unsigned := tolerant.not_near_neg_one term.coefficient (Bool.eq_false_iff.mpr negative)
    obtain ⟨reading, read, same, flat⟩ := exists_reading tolerant atomic (.inr unsigned)
    refine ⟨reading, ?_, ?_, ?_⟩
    · rw [appendTo, if_neg negative, flatten_add, flat, tolerant.one_mul]
    · intro other
      rw [appendTo, appendTo, if_neg negative, ← same]
      rcases read with rfl | rfl
      · rw [if_neg negative]
      · rw [if_neg (by simp [tolerant.one_not_negative])]
    · rcases read with rfl | rfl
      · exact nonzero
      · exact tolerant.one_apart

/-- Flattening a rebuilt sum gives terms with the same bases, and they rebuild the
same sum. -/
theorem exists_reading_join {terms : List (Term α)} (nonempty : terms ≠ [])
    (collected : Collected arithmetic terms) :
    ∃ readings, flatten arithmetic arithmetic.one (join arithmetic terms) = readings ∧
      readings.map (·.base?) = terms.map (·.base?) ∧
      join arithmetic readings = join arithmetic terms ∧
      ∀ term ∈ readings, arithmetic.apart term.coefficient arithmetic.zero = true := by
  induction terms using List.reverseRecOn with
  | nil => exact absurd rfl nonempty
  | append_singleton initial last ih =>
      have lastMember : last ∈ initial ++ [last] := by simp
      have lastAtomic := collected.atomic last lastMember
      have lastNonzero := collected.nonzero last lastMember
      by_cases single : initial = []
      · subst single
        obtain ⟨reading, flat, same, nonzero⟩ :=
          exists_reading_first tolerant lastAtomic lastNonzero
        refine ⟨[⟨reading, last.base?⟩], flat, rfl, same, ?_⟩
        simpa using nonzero
      · obtain ⟨readings, flat, bases, same, nonzero⟩ := ih single collected.withoutLast
        obtain ⟨reading, flatLast, sameLast, lastApart⟩ :=
          exists_reading_later tolerant (join arithmetic initial) lastAtomic lastNonzero
        have readingsNonempty : readings ≠ [] := by
          rintro rfl
          exact single (List.map_eq_nil_iff.mp bases.symm)
        refine ⟨readings ++ [⟨reading, last.base?⟩], ?_, ?_, ?_, ?_⟩
        · rw [join_concat arithmetic single, flatLast, flat]
        · simp [bases]
        · rw [join_concat arithmetic readingsNonempty, join_concat arithmetic single, same,
            sameLast]
        · simpa [or_imp, forall_and, lastApart] using nonzero

/-- Collecting the terms of a rebuilt sum gives the sum back. -/
theorem collect_join {terms : List (Term α)} (nonempty : terms ≠ [])
    (collected : Collected arithmetic terms) :
    collect arithmetic (join arithmetic terms) = join arithmetic terms := by
  obtain ⟨readings, flat, bases, same, nonzero⟩ :=
    exists_reading_join tolerant nonempty collected
  have distinct : Distinct arithmetic readings := by
    have fromBases : (readings.map (·.base?)).Pairwise fun first second =>
        sameBase arithmetic first second = false := by
      rw [bases]
      exact List.pairwise_map.mpr collected.distinct
    exact List.pairwise_map.mp fromBases
  rw [collect, split, flat, merge_of_distinct arithmetic distinct nonzero, same]

end Reading

end Term

end ExprCalculus
