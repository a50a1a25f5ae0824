import ExprCalculus.Proofs.Polynomial.Powers
import Mathlib.Data.List.Nodup

/-!
# Shared powers

Powers are proper if each variable stands once and with a positive power.  They are then
given, up to their order, by the power of each variable.  Multiplying adds the powers of
a variable, dividing by common powers subtracts them, and the common powers of some
monomials are the lowest ones.
-/

namespace ExprCalculus

namespace Powers

variable {powers common first second : Powers} {name : String} {power : ℕ}

section Lookup

theorem of_raise (powers : Powers) (other : String) (power : ℕ) :
    (powers.raise other power).of name = powers.of name + if name = other then power else 0 := by
  induction powers with
  | nil => rw [raise, of_cons, of_nil, Nat.zero_add]
  | cons entry rest ih =>
      obtain ⟨head, present⟩ := entry
      rw [raise]
      split
      next same =>
        subst same
        rw [of_cons, of_cons]
        split <;> simp
      next different =>
        rw [of_cons, of_cons, ih]
        split
        next same => rw [if_neg (same.trans_ne different), Nat.add_zero]
        next => rfl

/-- Multiplying adds the powers of a variable. -/
theorem Distinct.of_mul (distinct : second.Distinct) (first : Powers) (name : String) :
    (first.mul second).of name = first.of name + second.of name := by
  unfold Powers.mul
  induction second generalizing first with
  | nil => rfl
  | cons entry rest ih =>
      obtain ⟨fresh, restDistinct⟩ := List.nodup_cons.mp distinct
      rw [List.foldl_cons, ih restDistinct, of_raise, of_cons, Nat.add_assoc]
      split
      next same =>
        subst same
        rw [of_eq_zero fresh, Nat.add_zero]
      next => rw [Nat.zero_add]

/-- Dividing subtracts the powers of a variable. -/
theorem Distinct.of_without (distinct : powers.Distinct) (common : Powers) (name : String) :
    (powers.without common).of name = powers.of name - common.of name := by
  induction powers with
  | nil => rw [Powers.without, List.filterMap_nil, of_nil, Nat.zero_sub]
  | cons entry rest ih =>
      obtain ⟨head, power⟩ := entry
      obtain ⟨fresh, restDistinct⟩ := List.nodup_cons.mp distinct
      have rest := ih restDistinct
      rw [without_cons, of_cons]
      split
      next =>
        rw [of_cons, rest]
        split
        next same => rw [same]
        next => rfl
      next dropped =>
        rw [rest]
        split
        next same =>
          subst same
          rw [of_eq_zero fresh]
          omega
        next => rfl

end Lookup

/-- Every variable stands once and with a positive power. -/
structure IsProper (powers : Powers) : Prop where
  distinct : powers.Distinct
  positive : ∀ entry ∈ powers, 0 < entry.2

namespace IsProper

theorem mem_iff (proper : powers.IsProper) :
    (name, power) ∈ powers ↔ powers.of name = power ∧ 0 < power := by
  constructor
  · exact fun member => ⟨proper.distinct.of_eq member, proper.positive _ member⟩
  · rintro ⟨rfl, positive⟩
    apply mem_of
    by_contra absent
    exact positive.ne' (of_eq_zero absent)

/-- Proper powers are given by the power of each variable. -/
theorem perm (proper : first.IsProper) (otherProper : second.IsProper)
    (same : ∀ name, first.of name = second.of name) : first.Perm second := by
  rw [List.perm_ext_iff_of_nodup (List.Nodup.of_map _ proper.distinct)
    (List.Nodup.of_map _ otherProper.distinct)]
  rintro ⟨name, power⟩
  rw [proper.mem_iff, otherProper.mem_iff, same]

theorem raise (proper : powers.IsProper) (name : String) (positive : 0 < power) :
    (powers.raise name power).IsProper where
  distinct := proper.distinct.raise name power
  positive := by
    obtain ⟨-, allPositive⟩ := proper
    induction powers with
    | nil => simpa [Powers.raise] using positive
    | cons entry rest ih =>
        rw [List.forall_mem_cons] at allPositive
        rw [Powers.raise]
        split
        next => exact List.forall_mem_cons.mpr ⟨Nat.add_pos_left allPositive.1 _, allPositive.2⟩
        next => exact List.forall_mem_cons.mpr ⟨allPositive.1, ih allPositive.2⟩

theorem mul (proper : first.IsProper) (positive : ∀ entry ∈ second, 0 < entry.2) :
    (first.mul second).IsProper := by
  unfold Powers.mul
  induction second generalizing first with
  | nil => exact proper
  | cons entry rest ih =>
      rw [List.forall_mem_cons] at positive
      exact ih (proper.raise entry.1 positive.1) positive.2

theorem without (proper : powers.IsProper) (common : Powers) :
    (powers.without common).IsProper where
  distinct := proper.distinct.without common
  positive := by
    intro entry member
    obtain ⟨_, -, isChanged⟩ := List.mem_filterMap.mp member
    obtain ⟨lower, same⟩ := Option.ite_none_right_eq_some.mp isChanged
    rw [← Option.some.inj same]
    exact Nat.sub_pos_of_lt lower

/-- Dividing by powers that are not higher and multiplying with them again. -/
theorem without_mul_perm (proper : powers.IsProper) (commonProper : common.IsProper)
    (lower : ∀ name, common.of name ≤ powers.of name) :
    ((powers.without common).mul common).Perm powers := by
  refine ((proper.without common).mul commonProper.positive).perm proper fun name => ?_
  rw [commonProper.distinct.of_mul, proper.distinct.of_without, Nat.sub_add_cancel (lower name)]

theorem without_nil (proper : powers.IsProper) : powers.without [] = powers := by
  obtain ⟨-, positive⟩ := proper
  induction powers with
  | nil => rfl
  | cons entry rest ih =>
      rw [List.forall_mem_cons] at positive
      rw [without_cons, of_nil, if_pos positive.1, Nat.sub_zero, ih positive.2]

end IsProper

end Powers

namespace Monomial

variable {α : Type} {monomials rest : List (Monomial α)} {monomial : Monomial α}

theorem foldl_min_le (name : String) (monomials : List (Monomial α)) (power : ℕ) :
    let lowest := monomials.foldl (fun lowest other => min lowest (other.powers.of name)) power
    lowest ≤ power ∧ ∀ other ∈ monomials, lowest ≤ other.powers.of name := by
  induction monomials generalizing power with
  | nil => simp
  | cons first rest ih =>
      obtain ⟨bounded, restBounded⟩ := ih (min power (first.powers.of name))
      refine ⟨bounded.trans (min_le_left _ _), List.forall_mem_cons.mpr ⟨?_, restBounded⟩⟩
      exact bounded.trans (min_le_right _ _)

theorem mem_commonPowers {first : Monomial α} {entry : String × ℕ}
    (member : entry ∈ commonPowers (first :: rest)) :
    (∃ power, (entry.1, power) ∈ first.powers ∧ entry.2 ≤ power) ∧
      ∀ other ∈ rest, entry.1 ∈ other.powers.map Prod.fst ∧ entry.2 ≤ other.powers.of entry.1 := by
  obtain ⟨⟨name, power⟩, isEntry, kept⟩ := List.mem_filterMap.mp member
  obtain ⟨everywhere, same⟩ := Option.ite_none_right_eq_some.mp kept
  obtain rfl := Option.some.inj same
  obtain ⟨bounded, restBounded⟩ := foldl_min_le name rest power
  refine ⟨⟨power, isEntry, bounded⟩, ?_⟩
  intro other isOther
  obtain ⟨found, inOther, sameName⟩ :=
    List.any_eq_true.mp (List.all_eq_true.mp everywhere other isOther)
  exact ⟨List.mem_map.mpr ⟨found, inOther, of_decide_eq_true sameName⟩, restBounded other isOther⟩

/-- Common powers are shared by all monomials. -/
theorem commonPowers_shared (distinct : ∀ other ∈ monomials, other.powers.Distinct)
    (isMember : monomial ∈ monomials) : ∀ entry ∈ commonPowers monomials,
      entry.1 ∈ monomial.powers.map Prod.fst ∧ entry.2 ≤ monomial.powers.of entry.1 := by
  intro entry member
  cases monomials with
  | nil => cases isMember
  | cons first rest =>
      obtain ⟨⟨power, inFirst, bounded⟩, inRest⟩ := mem_commonPowers member
      rcases List.mem_cons.mp isMember with rfl | isOther
      · refine ⟨List.mem_map.mpr ⟨_, inFirst, rfl⟩, ?_⟩
        rwa [(distinct _ isMember).of_eq inFirst]
      · exact inRest monomial isOther

theorem commonPowers_distinct (distinct : ∀ other ∈ monomials, other.powers.Distinct) :
    (commonPowers monomials).Distinct := by
  cases monomials with
  | nil => exact List.nodup_nil
  | cons first rest =>
      apply (distinct first List.mem_cons_self).filterMap
      intro entry changed isChanged
      obtain ⟨_, same⟩ := Option.ite_none_right_eq_some.mp isChanged
      rw [← Option.some.inj same]

/-- A common power is at most the power of the variable in each monomial. -/
theorem of_commonPowers_le (distinct : ∀ other ∈ monomials, other.powers.Distinct)
    (isMember : monomial ∈ monomials) (name : String) :
    (commonPowers monomials).of name ≤ monomial.powers.of name := by
  by_cases occurs : name ∈ (commonPowers monomials).map Prod.fst
  · exact (commonPowers_shared distinct isMember _ (Powers.mem_of occurs)).2
  · rw [Powers.of_eq_zero occurs]
    exact Nat.zero_le _

theorem le_foldl_max (name : String) (monomials : List (Monomial α)) (start : ℕ) :
    let highest := monomials.foldl (fun highest other => max highest (other.powers.of name)) start
    start ≤ highest ∧ ∀ monomial ∈ monomials, monomial.powers.of name ≤ highest := by
  induction monomials generalizing start with
  | nil => simp
  | cons first rest ih =>
      obtain ⟨bounded, restBounded⟩ := ih (max start (first.powers.of name))
      refine ⟨(le_max_left _ _).trans bounded, List.forall_mem_cons.mpr ⟨?_, restBounded⟩⟩
      exact (le_max_right _ _).trans bounded

theorem foldl_min_eq (name : String) (monomials : List (Monomial α)) (power : ℕ) :
    let lowest := monomials.foldl (fun lowest other => min lowest (other.powers.of name)) power
    lowest = power ∨ ∃ other ∈ monomials, other.powers.of name = lowest := by
  induction monomials generalizing power with
  | nil => exact .inl rfl
  | cons first rest ih =>
      rcases ih (min power (first.powers.of name)) with same | ⟨other, member, same⟩
      · rcases min_choice power (first.powers.of name) with isPower | isFirst
        · exact .inl (same.trans isPower)
        · exact .inr ⟨first, List.mem_cons_self, (same.trans isFirst).symm⟩
      · exact .inr ⟨other, List.mem_cons_of_mem _ member, same⟩

/-- Each common power is the power of the variable in one of the monomials. -/
theorem exists_of_commonPowers (distinct : ∀ other ∈ monomials, other.powers.Distinct)
    (nonempty : monomials ≠ []) (name : String) :
    ∃ monomial ∈ monomials, monomial.powers.of name = (commonPowers monomials).of name := by
  by_cases everywhere : ∀ other ∈ monomials, name ∈ other.powers.map Prod.fst
  · cases monomials with
    | nil => exact absurd rfl nonempty
    | cons first rest =>
        rw [List.forall_mem_cons] at everywhere
        have shared : (name, rest.foldl
            (fun lowest other => min lowest (other.powers.of name)) (first.powers.of name)) ∈
              commonPowers (first :: rest) := by
          refine List.mem_filterMap.mpr ⟨_, Powers.mem_of everywhere.1, if_pos ?_⟩
          rw [List.all_eq_true]
          intro other member
          obtain ⟨entry, isEntry, same⟩ := List.mem_map.mp (everywhere.2 other member)
          exact List.any_eq_true.mpr ⟨entry, isEntry, decide_eq_true same⟩
        rw [(commonPowers_distinct distinct).of_eq shared]
        rcases foldl_min_eq name rest (first.powers.of name) with same | ⟨other, member, same⟩
        · exact ⟨first, List.mem_cons_self, same.symm⟩
        · exact ⟨other, List.mem_cons_of_mem _ member, same⟩
  · push Not at everywhere
    obtain ⟨monomial, member, absent⟩ := everywhere
    have lower := of_commonPowers_le distinct member name
    rw [Powers.of_eq_zero absent] at lower
    exact ⟨monomial, member, (Powers.of_eq_zero absent).trans (Nat.le_zero.mp lower).symm⟩

theorem commonPowers_proper (proper : ∀ other ∈ monomials, other.powers.IsProper) :
    (commonPowers monomials).IsProper := by
  have distinct : ∀ other ∈ monomials, other.powers.Distinct :=
    fun other member => (proper other member).distinct
  have commonDistinct := commonPowers_distinct distinct
  refine ⟨commonDistinct, fun entry shared => ?_⟩
  have nonempty : monomials ≠ [] := by
    rintro rfl
    cases shared
  obtain ⟨monomial, member, same⟩ := exists_of_commonPowers distinct nonempty entry.1
  rw [commonDistinct.of_eq shared] at same
  have occurs := (commonPowers_shared distinct member entry shared).1
  rw [← same]
  exact (proper monomial member).positive _ (Powers.mem_of occurs)

end Monomial

end ExprCalculus
