import ExprCalculus.Polynomial.Monomial
import Mathlib.Algebra.BigOperators.Group.List.Basic
import Mathlib.Algebra.Order.Field.Rat
import Mathlib.Tactic.Ring

/-!
# Values of powers

At a point, which gives every variable a rational number, powers of variables have a
product.  Multiplying powers multiplies their products, and dividing by common powers
divides them, as long as each variable stands once.
-/

namespace ExprCalculus

namespace Powers

def value (point : String → ℚ) (powers : Powers) : ℚ :=
  (powers.map fun entry => point entry.1 ^ entry.2).prod

/-- Every variable stands once. -/
def Distinct (powers : Powers) : Prop :=
  (powers.map Prod.fst).Nodup

variable {point : String → ℚ} {powers common first second : Powers} {name other : String}
  {power : ℕ}

@[simp]
theorem value_nil : value point [] = 1 := rfl

@[simp]
theorem value_cons : value point ((name, power) :: powers) =
    point name ^ power * powers.value point := by
  simp [value]

section Products

theorem value_raise (powers : Powers) (name : String) (power : ℕ) :
    (powers.raise name power).value point = powers.value point * point name ^ power := by
  induction powers with
  | nil => simp [raise]
  | cons entry rest ih =>
      obtain ⟨other, present⟩ := entry
      rw [raise]
      split
      next same =>
        subst same
        rw [value_cons, value_cons, pow_add]
        ring
      next =>
        rw [value_cons, value_cons, ih]
        ring

theorem value_mul (first second : Powers) :
    (first.mul second).value point = first.value point * second.value point := by
  unfold mul
  induction second generalizing first with
  | nil => simp
  | cons entry rest ih =>
      rw [List.foldl_cons, ih, value_raise, value_cons, mul_assoc]

theorem mem_names_raise :
    other ∈ (powers.raise name power).map Prod.fst ↔
      other = name ∨ other ∈ powers.map Prod.fst := by
  induction powers with
  | nil => simp [raise]
  | cons entry rest ih =>
      rw [raise]
      split
      next same => simp [same]
      next =>
        rw [List.map_cons, List.mem_cons, ih, List.map_cons, List.mem_cons]
        exact or_left_comm

theorem Distinct.raise (distinct : powers.Distinct) (name : String) (power : ℕ) :
    (powers.raise name power).Distinct := by
  induction powers with
  | nil => simp [Distinct, Powers.raise]
  | cons entry rest ih =>
      obtain ⟨fresh, restDistinct⟩ := List.nodup_cons.mp distinct
      rw [Powers.raise]
      split
      next => exact List.nodup_cons.mpr ⟨fresh, restDistinct⟩
      next different =>
        refine List.nodup_cons.mpr ⟨?_, ih restDistinct⟩
        rw [mem_names_raise]
        exact not_or.mpr ⟨different, fresh⟩

theorem Distinct.mul (distinct : first.Distinct) (second : Powers) :
    (first.mul second).Distinct := by
  unfold Powers.mul
  induction second generalizing first with
  | nil => exact distinct
  | cons entry rest ih => exact ih (distinct.raise entry.1 entry.2)

end Products

section Lookup

@[simp]
theorem of_nil : of [] name = 0 := rfl

theorem of_cons : of ((other, power) :: powers) name =
    if name = other then power else powers.of name := by
  unfold of
  rw [List.lookup_cons]
  by_cases same : name = other
  · simp [same]
  · simp [same, beq_eq_false_iff_ne.mpr same]

theorem of_eq_zero (absent : name ∉ powers.map Prod.fst) : powers.of name = 0 := by
  induction powers with
  | nil => rfl
  | cons entry rest ih =>
      rw [List.map_cons, List.mem_cons, not_or] at absent
      rw [of_cons, if_neg absent.1, ih absent.2]

theorem Distinct.of_eq (distinct : powers.Distinct) (member : (name, power) ∈ powers) :
    powers.of name = power := by
  induction powers with
  | nil => cases member
  | cons entry rest ih =>
      obtain ⟨fresh, restDistinct⟩ := List.nodup_cons.mp distinct
      rw [of_cons]
      rcases List.mem_cons.mp member with rfl | inRest
      · rw [if_pos rfl]
      · have different : name ≠ entry.1 := by
          rintro rfl
          exact fresh (List.mem_map.mpr ⟨_, inRest, rfl⟩)
        rw [if_neg different, ih restDistinct inRest]

/-- The power of a variable that occurs. -/
theorem mem_of (occurs : name ∈ powers.map Prod.fst) : (name, powers.of name) ∈ powers := by
  induction powers with
  | nil => cases occurs
  | cons entry rest ih =>
      rw [of_cons]
      split
      next same =>
        subst same
        exact List.mem_cons_self
      next different =>
        rw [List.map_cons, List.mem_cons] at occurs
        exact List.mem_cons_of_mem _ (ih (occurs.resolve_left different))

/-- Powers of a single variable. -/
theorem Distinct.value_of_single (distinct : powers.Distinct)
    (single : ∀ entry ∈ powers, entry.1 = name) :
    powers.value point = point name ^ powers.of name := by
  match powers with
  | [] => simp
  | [(other, power)] =>
      obtain rfl := single _ List.mem_cons_self
      simp [of_cons]
  | (other, power) :: (another, _) :: _ =>
      have same : other = another :=
        (single _ List.mem_cons_self).trans
          (single _ (List.mem_cons_of_mem _ List.mem_cons_self)).symm
      simp [Distinct, same] at distinct

end Lookup

section Division

theorem prod_update {names : List String} (distinct : names.Nodup) (member : name ∈ names)
    {powerOf : String → ℕ} (vanishes : powerOf name = 0) :
    (names.map fun other => point other ^ if other = name then power else powerOf other).prod =
      point name ^ power * (names.map fun other => point other ^ powerOf other).prod := by
  induction names with
  | nil => cases member
  | cons head rest ih =>
      obtain ⟨fresh, restDistinct⟩ := List.nodup_cons.mp distinct
      rw [List.map_cons, List.prod_cons, List.map_cons, List.prod_cons]
      by_cases same : head = name
      · subst same
        have unchanged :
            (rest.map fun other => point other ^ if other = head then power else powerOf other) =
              rest.map fun other => point other ^ powerOf other := by
          apply List.map_congr_left
          intro other inRest
          rw [if_neg (ne_of_mem_of_not_mem inRest fresh)]
        rw [if_pos rfl, unchanged, vanishes, pow_zero, one_mul]
      · rw [if_neg same, ih restDistinct ((List.mem_cons.mp member).resolve_left (Ne.symm same))]
        ring

/-- The product over more variables, where those that do not occur have power zero. -/
theorem Distinct.prod_of (distinct : common.Distinct) {names : List String}
    (namesDistinct : names.Nodup) (occur : ∀ entry ∈ common, entry.1 ∈ names) :
    (names.map fun name => point name ^ common.of name).prod = common.value point := by
  induction common with
  | nil => simp
  | cons entry rest ih =>
      obtain ⟨fresh, restDistinct⟩ := List.nodup_cons.mp distinct
      rw [List.forall_mem_cons] at occur
      have updated (name : String) : of (entry :: rest) name =
          if name = entry.1 then entry.2 else of rest name := of_cons
      simp only [updated]
      rw [prod_update namesDistinct occur.1 (of_eq_zero fresh), ih restDistinct occur.2, value_cons]

theorem without_cons : without ((name, power) :: powers) common =
    if common.of name < power then (name, power - common.of name) :: powers.without common
    else powers.without common := by
  unfold without
  rw [List.filterMap_cons]
  split <;> simp_all

theorem value_without (bounded : ∀ entry ∈ powers, common.of entry.1 ≤ entry.2) :
    (powers.without common).value point *
        (powers.map fun entry => point entry.1 ^ common.of entry.1).prod =
      powers.value point := by
  induction powers with
  | nil => simp [without]
  | cons entry rest ih =>
      obtain ⟨name, power⟩ := entry
      rw [List.forall_mem_cons] at bounded
      obtain ⟨headBounded, restBounded⟩ := bounded
      have total : point name ^ (power - common.of name) * point name ^ common.of name =
          point name ^ power := by
        rw [← pow_add, Nat.sub_add_cancel headBounded]
      rw [List.map_cons, List.prod_cons, value_cons, ← ih restBounded, ← total, without_cons]
      split
      next =>
        rw [value_cons]
        ring
      next dropped =>
        rw [Nat.sub_eq_zero_of_le (not_lt.mp dropped), pow_zero]
        ring

/-- Dividing by common powers divides the product. -/
theorem Distinct.value_without (distinct : powers.Distinct) (commonDistinct : common.Distinct)
    (shared : ∀ entry ∈ common, entry.1 ∈ powers.map Prod.fst ∧ entry.2 ≤ powers.of entry.1) :
    (powers.without common).value point * common.value point = powers.value point := by
  have bounded : ∀ entry ∈ powers, common.of entry.1 ≤ entry.2 := by
    intro entry member
    by_cases occurs : entry.1 ∈ common.map Prod.fst
    · rw [← distinct.of_eq member]
      exact (shared _ (mem_of occurs)).2
    · rw [of_eq_zero occurs]
      exact Nat.zero_le _
  have names : ∀ entry ∈ common, entry.1 ∈ powers.map Prod.fst :=
    fun entry member => (shared entry member).1
  rw [← Powers.value_without bounded, ← commonDistinct.prod_of distinct names, List.map_map]
  rfl

/-- Dropping and changing powers, but no variables, leaves the variables distinct. -/
theorem Distinct.filterMap (distinct : powers.Distinct)
    {change : String × ℕ → Option (String × ℕ)}
    (keeps : ∀ entry changed, change entry = some changed → changed.1 = entry.1) :
    Distinct (powers.filterMap change) := by
  have names : ((powers.filterMap change).map Prod.fst).Sublist (powers.map Prod.fst) := by
    clear distinct
    induction powers with
    | nil => simp
    | cons entry rest ih =>
        rw [List.filterMap_cons]
        split
        next => exact ih.cons _
        next changed isChanged =>
          rw [List.map_cons, keeps entry changed isChanged]
          exact ih.cons_cons _
  exact List.Nodup.sublist names distinct

theorem Distinct.without (distinct : powers.Distinct) (common : Powers) :
    (powers.without common).Distinct := by
  apply distinct.filterMap
  intro entry changed isChanged
  obtain ⟨_, same⟩ := Option.ite_none_right_eq_some.mp isChanged
  rw [← Option.some.inj same]

end Division

end Powers

end ExprCalculus
