import ExprCalculus.Proofs.Simplification.Terms
import Mathlib.Algebra.Ring.Int.Defs
import Mathlib.Algebra.Ring.Pi

/-!
# Terms of affine forms

An affine form with whole coefficients gives every variable a coefficient, and no variable
the constant term.  A list of terms lists a form if its bases are different variables, or
none, and its coefficients are those of the form.  Merging two lists of terms adds the
coefficients that are listed under the same key.
-/

namespace ExprCalculus

/-- The coefficients of the variables, and the constant term under no variable. -/
abbrev Form :=
  Option String → ℤ

namespace Term

variable {α : Type} {arithmetic : Arithmetic α} {term other : Term α} {terms : List (Term α)}
  {key : Option String}

/-- The variable that a term is a multiple of, which is none for a constant term.  A multiple
of anything else has no key. -/
def key? (term : Term α) : Option (Option String) :=
  match term.base? with
  | none => some none
  | some (.var name) => some (some name)
  | some _ => none

theorem key?_eq_some : term.key? = some key ↔ term.base? = key.map .var := by
  unfold key?
  cases key <;> split <;> simp_all

theorem sameBase_iff {otherKey : Option String} (isKey : term.key? = some key)
    (isOther : other.key? = some otherKey) :
    sameBase arithmetic term.base? other.base? = true ↔ key = otherKey := by
  rw [key?_eq_some] at isKey isOther
  rw [isKey, isOther]
  cases key <;> cases otherKey <;>
    simp [sameBase, Arithmetic.sameExpr, Expr.sameBy]

/-- Every term is a constant or a multiple of a variable. -/
def Keyed (terms : List (Term α)) : Prop :=
  ∀ term ∈ terms, ∃ key, term.key? = some key

def coefficient? (key : Option String) : List (Term α) → Option α
  | [] => none
  | term :: rest => if term.key? = some key then some term.coefficient else coefficient? key rest

theorem coefficient?_cons {firstKey : Option String} (isKey : term.key? = some firstKey)
    (key : Option String) (rest : List (Term α)) :
    coefficient? key (term :: rest) =
      if key = firstKey then some term.coefficient else coefficient? key rest := by
  rw [coefficient?]
  simp only [isKey, Option.some.injEq, eq_comm]

theorem coefficient?_append (left right : List (Term α)) :
    coefficient? key (left ++ right) = (coefficient? key left).or (coefficient? key right) := by
  induction left with
  | nil => rfl
  | cons first rest ih =>
      rw [List.cons_append, coefficient?, coefficient?, ih]
      split <;> rfl

theorem exists_coefficient? (member : term ∈ terms) (isKey : term.key? = some key) :
    ∃ coefficient, coefficient? key terms = some coefficient := by
  induction terms with
  | nil => cases member
  | cons first rest ih =>
      rw [coefficient?]
      split
      · exact ⟨_, rfl⟩
      next different =>
        rcases List.mem_cons.mp member with rfl | inRest
        · exact absurd isKey different
        · exact ih inRest

theorem exists_term_of_coefficient? {coefficient : α}
    (found : coefficient? key terms = some coefficient) :
    ∃ term ∈ terms, term.key? = some key ∧ term.coefficient = coefficient := by
  induction terms with
  | nil => cases found
  | cons first rest ih =>
      rw [coefficient?] at found
      split at found
      next isKey =>
        cases found
        exact ⟨first, List.mem_cons_self, isKey, rfl⟩
      next =>
        obtain ⟨term, member, isTerm⟩ := ih found
        exact ⟨term, List.mem_cons_of_mem first member, isTerm⟩

/-- Behind a term of a list with different bases there is no other term with its key. -/
theorem coefficient?_eq_none (distinct : Distinct arithmetic (term :: terms))
    (isKey : term.key? = some key) : coefficient? key terms = none := by
  cases found : coefficient? key terms with
  | none => rfl
  | some coefficient =>
      obtain ⟨other, member, isOther, -⟩ := exists_term_of_coefficient? found
      have different := (List.pairwise_cons.mp distinct).1 other member
      rw [(sameBase_iff isKey isOther).mpr rfl] at different
      cases different

section Merging

theorem Keyed.insert (keyed : Keyed terms) (isKey : term.key? = some key) :
    Keyed (insert arithmetic terms term) := by
  intro inserted member
  rcases base_of_mem_insert arithmetic member with same | ⟨old, isOld, same⟩
  · exact ⟨key, key?_eq_some.mpr (same.trans (key?_eq_some.mp isKey))⟩
  · obtain ⟨oldKey, isOldKey⟩ := keyed old isOld
    exact ⟨oldKey, key?_eq_some.mpr (same.trans (key?_eq_some.mp isOldKey))⟩

/-- Inserting a term changes the coefficient of its key only. -/
theorem coefficient?_insert (keyed : Keyed terms) (isKey : term.key? = some key)
    (otherKey : Option String) :
    coefficient? otherKey (insert arithmetic terms term) =
      if otherKey = key then
        (coefficient? otherKey terms).merge arithmetic.add (some term.coefficient)
      else
        coefficient? otherKey terms := by
  induction terms with
  | nil =>
      rw [Term.insert, coefficient?_cons isKey]
      rfl
  | cons first rest ih =>
      obtain ⟨firstKey, isFirst⟩ := keyed first List.mem_cons_self
      have inRest := ih fun term member => keyed term (List.mem_cons_of_mem first member)
      rw [Term.insert, coefficient?_cons isFirst]
      by_cases same : firstKey = key
      · subst same
        have unchanged :
            (⟨arithmetic.add first.coefficient term.coefficient, first.base?⟩ : Term α).key? =
              some firstKey := isFirst
        rw [if_pos ((sameBase_iff isFirst isKey).mpr rfl), coefficient?_cons unchanged]
        split <;> rfl
      · have different : ¬ sameBase arithmetic first.base? term.base? = true :=
          fun equal => same ((sameBase_iff isFirst isKey).mp equal)
        rw [if_neg different, coefficient?_cons isFirst, inRest]
        by_cases found : otherKey = firstKey
        · rw [if_pos found, if_pos found, if_neg (fun isKey => same (found.symm.trans isKey))]
        · rw [if_neg found, if_neg found]

theorem Keyed.foldl_insert {merged : List (Term α)} (keyed : Keyed merged)
    (termsKeyed : Keyed terms) : Keyed (terms.foldl (Term.insert arithmetic) merged) := by
  induction terms generalizing merged with
  | nil => exact keyed
  | cons first rest ih =>
      obtain ⟨key, isKey⟩ := termsKeyed first List.mem_cons_self
      exact ih (keyed.insert isKey) fun term member =>
        termsKeyed term (List.mem_cons_of_mem first member)

/-- Merging terms with different bases adds each coefficient once. -/
theorem coefficient?_foldl_insert {merged : List (Term α)} (keyed : Keyed merged)
    (termsKeyed : Keyed terms) (distinct : Distinct arithmetic terms) (key : Option String) :
    coefficient? key (terms.foldl (insert arithmetic) merged) =
      (coefficient? key merged).merge arithmetic.add (coefficient? key terms) := by
  induction terms generalizing merged with
  | nil =>
      rw [List.foldl_nil, coefficient?]
      cases coefficient? key merged <;> rfl
  | cons first rest ih =>
      obtain ⟨firstKey, isFirst⟩ := termsKeyed first List.mem_cons_self
      have restKeyed : Keyed rest := fun term member =>
        termsKeyed term (List.mem_cons_of_mem first member)
      rw [List.foldl_cons, ih (keyed.insert isFirst) restKeyed (List.pairwise_cons.mp distinct).2,
        coefficient?_insert keyed isFirst, coefficient?_cons isFirst]
      by_cases same : key = firstKey
      · subst same
        rw [if_pos rfl, if_pos rfl, coefficient?_eq_none distinct isFirst]
        cases coefficient? key merged <;> rfl
      · rw [if_neg same, if_neg same]

end Merging

theorem coefficient?_filter (keyed : Keyed terms) (distinct : Distinct arithmetic terms)
    (keep : α → Bool) (key : Option String) :
    coefficient? key (terms.filter fun term => keep term.coefficient) =
      (coefficient? key terms).filter keep := by
  induction terms with
  | nil => rfl
  | cons first rest ih =>
      obtain ⟨firstKey, isFirst⟩ := keyed first List.mem_cons_self
      have inRest := ih (fun term member => keyed term (List.mem_cons_of_mem first member))
        (List.pairwise_cons.mp distinct).2
      rw [List.filter_cons, coefficient?_cons isFirst]
      by_cases kept : keep first.coefficient = true
      · rw [if_pos kept, coefficient?_cons isFirst, inRest]
        split
        · rw [Option.filter_some, if_pos kept]
        · rfl
      · rw [if_neg kept, inRest]
        split
        next same =>
          subst same
          rw [coefficient?_eq_none distinct isFirst, Option.filter_some, if_neg kept]
          rfl
        · rfl

section Lists

/-- The coefficient that is listed under a key, where no term stands for zero. -/
def Entry (holds : α → ℤ → Prop) : Option α → ℤ → Prop
  | none, number => number = 0
  | some coefficient, number => holds coefficient number

variable (arithmetic) in
/-- The terms have different keys, and the coefficients stand for those of the form. -/
structure Lists (holds : α → ℤ → Prop) (terms : List (Term α)) (form : Form) : Prop where
  keyed : Keyed terms
  distinct : Distinct arithmetic terms
  entry : ∀ key, Entry holds (coefficient? key terms) (form key)

variable {holds other : α → ℤ → Prop} {left right : List (Term α)} {form leftForm rightForm : Form}

theorem Lists.mono (lists : Lists arithmetic holds terms form)
    (implies : ∀ coefficient key, holds coefficient (form key) → other coefficient (form key)) :
    Lists arithmetic other terms form := by
  refine ⟨lists.keyed, lists.distinct, fun key => ?_⟩
  have entry := lists.entry key
  cases found : coefficient? key terms with
  | none =>
      rw [found] at entry
      exact entry
  | some coefficient =>
      rw [found] at entry
      exact implies coefficient key entry

theorem lists_nil : Lists arithmetic holds [] 0 :=
  ⟨List.forall_mem_nil _, List.Pairwise.nil, fun _ => rfl⟩

theorem lists_single {number : ℤ} (isKey : term.key? = some key)
    (isNumber : holds term.coefficient number) :
    Lists arithmetic holds [term] (Pi.single key number) := by
  refine ⟨List.forall_mem_singleton.mpr ⟨key, isKey⟩, List.pairwise_singleton _ _, fun other => ?_⟩
  rw [coefficient?_cons isKey]
  split
  next same =>
    rw [same, Pi.single_eq_same]
    exact isNumber
  next different =>
    rw [Pi.single_eq_of_ne different]
    rfl

/-- The first term stands for its part of the form, and the others for the rest. -/
theorem Lists.uncons (lists : Lists arithmetic holds (term :: terms) form) :
    ∃ key number rest, term.key? = some key ∧ holds term.coefficient number ∧ rest key = 0 ∧
      Lists arithmetic holds terms rest ∧ form = Pi.single key number + rest := by
  obtain ⟨key, isKey⟩ := lists.keyed term List.mem_cons_self
  have first := lists.entry key
  rw [coefficient?_cons isKey, if_pos rfl] at first
  refine ⟨key, form key, Function.update form key 0, isKey, first, Function.update_self ..,
    ⟨?_, ?_, ?_⟩, ?_⟩
  · exact fun other member => lists.keyed other (List.mem_cons_of_mem term member)
  · exact (List.pairwise_cons.mp lists.distinct).2
  · intro other
    by_cases same : other = key
    · subst same
      rw [Function.update_self, coefficient?_eq_none lists.distinct isKey]
      rfl
    · have entry := lists.entry other
      rw [coefficient?_cons isKey, if_neg same] at entry
      rwa [Function.update_of_ne same]
  · funext other
    by_cases same : other = key
    · subst same
      rw [Pi.add_apply, Pi.single_eq_same, Function.update_self, add_zero]
    · rw [Pi.add_apply, Pi.single_eq_of_ne same, Function.update_of_ne same, zero_add]

/-- Lists of terms that share no key are appended. -/
theorem Lists.append (isLeft : Lists arithmetic holds left leftForm)
    (isRight : Lists arithmetic holds right rightForm)
    (nonzero : ∀ coefficient number, holds coefficient number → number ≠ 0)
    (disjoint : ∀ key, leftForm key = 0 ∨ rightForm key = 0) :
    Lists arithmetic holds (left ++ right) (leftForm + rightForm) := by
  have missing {terms : List (Term α)} {form : Form} (lists : Lists arithmetic holds terms form)
      {key : Option String} (zero : form key = 0) : coefficient? key terms = none := by
    have entry := lists.entry key
    cases found : coefficient? key terms with
    | none => rfl
    | some coefficient =>
        rw [found] at entry
        exact absurd zero (nonzero _ _ entry)
  refine ⟨fun term member => ?_, List.pairwise_append.mpr ⟨isLeft.distinct, isRight.distinct, ?_⟩,
    fun key => ?_⟩
  · exact (List.mem_append.mp member).elim (isLeft.keyed term) (isRight.keyed term)
  · intro first inLeft second inRight
    obtain ⟨firstKey, isFirst⟩ := isLeft.keyed first inLeft
    obtain ⟨secondKey, isSecond⟩ := isRight.keyed second inRight
    rw [Bool.eq_false_iff, Ne, sameBase_iff isFirst isSecond]
    rintro rfl
    obtain ⟨_, firstFound⟩ := exists_coefficient? inLeft isFirst
    obtain ⟨_, secondFound⟩ := exists_coefficient? inRight isSecond
    rcases disjoint firstKey with zero | zero
    · cases firstFound.symm.trans (missing isLeft zero)
    · cases secondFound.symm.trans (missing isRight zero)
  · rw [coefficient?_append, Pi.add_apply]
    rcases disjoint key with zero | zero
    · rw [missing isLeft zero, zero, zero_add]
      exact isRight.entry key
    · rw [missing isRight zero, zero, add_zero, Option.or_none]
      exact isLeft.entry key

/-- Two lists of terms are merged to a list of the sum of the forms. -/
theorem Lists.merge (isLeft : Lists arithmetic holds left leftForm)
    (isRight : Lists arithmetic holds right rightForm)
    (implies : ∀ coefficient number, holds coefficient number → other coefficient number)
    (adds : ∀ first second number further, holds first number → holds second further →
      other (arithmetic.add first second) (number + further)) :
    Lists arithmetic other ((left ++ right).foldl (insert arithmetic) [])
      (leftForm + rightForm) := by
  have unmerged : left.foldl (insert arithmetic) [] = left :=
    foldl_insert_of_distinct arithmetic (by simpa using isLeft.distinct)
  rw [List.foldl_append, unmerged]
  refine ⟨isLeft.keyed.foldl_insert isRight.keyed,
    distinct_foldl_insert arithmetic isLeft.distinct right, fun key => ?_⟩
  have leftEntry := isLeft.entry key
  have rightEntry := isRight.entry key
  rw [coefficient?_foldl_insert isLeft.keyed isRight.keyed isRight.distinct, Pi.add_apply]
  cases leftFound : coefficient? key left with
  | none =>
      rw [leftFound] at leftEntry
      have zero : leftForm key = 0 := leftEntry
      rw [zero, zero_add]
      cases rightFound : coefficient? key right with
      | none =>
          rw [rightFound] at rightEntry
          exact rightEntry
      | some coefficient =>
          rw [rightFound] at rightEntry
          exact implies _ _ rightEntry
  | some first =>
      rw [leftFound] at leftEntry
      cases rightFound : coefficient? key right with
      | none =>
          rw [rightFound] at rightEntry
          have zero : rightForm key = 0 := rightEntry
          rw [zero, add_zero]
          exact implies _ _ leftEntry
      | some second =>
          rw [rightFound] at rightEntry
          exact adds _ _ _ _ leftEntry rightEntry

/-- Dropping the terms that stand for zero leaves a list of the form. -/
theorem Lists.filter (lists : Lists arithmetic holds terms form) {keep : α → Bool}
    (kept : ∀ coefficient number, holds coefficient number →
      (keep coefficient = true ↔ number ≠ 0)) :
    Lists arithmetic (fun coefficient number => holds coefficient number ∧ number ≠ 0)
      (terms.filter fun term => keep term.coefficient) form := by
  refine ⟨fun term member => lists.keyed term (List.mem_filter.mp member).1,
    lists.distinct.filter _, fun key => ?_⟩
  have entry := lists.entry key
  rw [coefficient?_filter lists.keyed lists.distinct]
  cases found : coefficient? key terms with
  | none =>
      rw [found] at entry
      exact entry
  | some coefficient =>
      rw [found] at entry
      rw [Option.filter_some]
      split
      next isKept => exact ⟨entry, (kept _ _ entry).mp isKept⟩
      next dropped => exact not_not.mp (mt (kept _ _ entry).mpr dropped)

end Lists

end Term

end ExprCalculus
