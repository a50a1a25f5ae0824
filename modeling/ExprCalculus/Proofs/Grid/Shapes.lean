import ExprCalculus.Grid.Basic
import Mathlib.Data.List.Forall2

/-!
# Stretching of shapes

A shape can be stretched to another if, aligned at the last side, each of its sides
is one or the side of the other.  This is an order on shapes with the empty shape at
the bottom, and the common shape of several shapes is their least upper bound in it:
it does not depend on the order of the shapes or on repetitions.
-/

namespace ExprCalculus

namespace Grid

/-- A side of a box can be stretched to another. -/
def SideStretches (source target : Nat) : Prop :=
  source = target ∨ source = 1

def Stretches (source target : List Nat) : Prop :=
  source.length ≤ target.length ∧
    List.Forall₂ SideStretches (padded target.length source) target

/-- A shape is the least that several shapes can be stretched to. -/
def IsCommonShape (shapes : List (List Nat)) (common : List Nat) : Prop :=
  ∀ other, Stretches common other ↔ ∀ shape ∈ shapes, Stretches shape other

section Padding

variable {dimension : Nat} {shape : List Nat}

theorem length_padded (fits : shape.length ≤ dimension) :
    (padded dimension shape).length = dimension := by
  simp [padded, fits]

@[simp]
theorem padded_length : padded shape.length shape = shape := by
  simp [padded]

theorem padded_padded (inner : shape.length ≤ dimension) {outer : Nat}
    (fits : dimension ≤ outer) : padded outer (padded dimension shape) = padded outer shape := by
  have total : outer - dimension + (dimension - shape.length) = outer - shape.length := by omega
  simp only [padded, List.length_append, List.length_replicate, Nat.sub_add_cancel inner]
  rw [← List.append_assoc, List.replicate_append_replicate, total]

theorem positions_replicate_append (count : Nat) :
    positions (List.replicate count 1 ++ shape) = positions shape := by
  induction count with
  | zero => rfl
  | succ count ih => simpa [positions, List.replicate_succ] using ih

@[simp]
theorem positions_padded : positions (padded dimension shape) = positions shape :=
  positions_replicate_append _

theorem forall_sideStretches_refl (sides : List Nat) :
    List.Forall₂ SideStretches sides sides :=
  List.forall₂_same.mpr fun _ _ => .inl rfl

/-- Sides of length one in front of both shapes do not matter. -/
theorem Stretches.padded {source target : List Nat} (stretches : Stretches source target)
    (fits : target.length ≤ dimension) :
    List.Forall₂ SideStretches (padded dimension source) (padded dimension target) := by
  rw [← padded_padded stretches.1 fits]
  simp only [Grid.padded, List.length_append, List.length_replicate,
    Nat.sub_add_cancel stretches.1]
  exact List.rel_append (forall_sideStretches_refl _) stretches.2

end Padding

section Order

variable {first second : List Nat}

theorem stretches_refl (shape : List Nat) : Stretches shape shape := by
  refine ⟨Nat.le_refl _, ?_⟩
  simpa using forall_sideStretches_refl shape

theorem stretches_nil (shape : List Nat) : Stretches [] shape := by
  refine ⟨Nat.zero_le _, ?_⟩
  induction shape with
  | nil => exact .nil
  | cons side sides ih => exact .cons (.inr rfl) (by simpa [padded] using ih)

theorem forall_sideStretches_antisymm {firsts seconds : List Nat}
    (forth : List.Forall₂ SideStretches firsts seconds)
    (back : List.Forall₂ SideStretches seconds firsts) : firsts = seconds := by
  induction forth with
  | nil => rfl
  | cons side sides ih =>
      cases back with
      | cons backSide backSides =>
          rw [ih backSides]
          simp only [SideStretches] at side backSide
          congr 1
          omega

theorem Stretches.antisymm (forth : Stretches first second) (back : Stretches second first) :
    first = second := by
  have sides := forth.2
  have backSides := back.2
  have same : first.length = second.length := Nat.le_antisymm forth.1 back.1
  rw [← same, padded_length] at sides
  rw [same, padded_length] at backSides
  exact forall_sideStretches_antisymm sides backSides

/-- Sides of length one in front of the source do not matter, up to the dimension of
the target. -/
theorem stretches_padded_iff {dimension : Nat} (inner : first.length ≤ dimension)
    (fits : dimension ≤ second.length) :
    Stretches (padded dimension first) second ↔ Stretches first second := by
  simp only [Stretches, length_padded inner, padded_padded inner fits, fits,
    Nat.le_trans inner fits]

end Order

section Common

theorem commonSide?_eq_some {first second common : Nat}
    (isCommon : commonSide? first second = some common) (target : Nat) :
    SideStretches common target ↔ SideStretches first target ∧ SideStretches second target := by
  simp only [commonSide?] at isCommon
  simp only [SideStretches]
  grind

theorem exists_commonSide? {first second target : Nat} (left : SideStretches first target)
    (right : SideStretches second target) : ∃ common, commonSide? first second = some common := by
  simp only [SideStretches] at left right
  rw [commonSide?]
  split_ifs <;> first | exact ⟨_, rfl⟩ | omega

def commonSides? (first second : List Nat) : Option (List Nat) :=
  (first.zip second).mapM fun (one, other) => commonSide? one other

theorem commonSides?_cons {first second : Nat} {firsts seconds : List Nat} :
    commonSides? (first :: firsts) (second :: seconds) =
      (commonSide? first second).bind fun side =>
        (commonSides? firsts seconds).map (side :: ·) := by
  simp only [commonSides?, List.zip_cons_cons, List.mapM_cons, Option.map_eq_bind]
  rfl

theorem commonSides?_eq_some {firsts seconds commons : List Nat}
    (length : firsts.length = seconds.length)
    (isCommon : commonSides? firsts seconds = some commons) :
    commons.length = firsts.length ∧
      ∀ targets, List.Forall₂ SideStretches commons targets ↔
        List.Forall₂ SideStretches firsts targets ∧
          List.Forall₂ SideStretches seconds targets := by
  induction firsts generalizing seconds commons with
  | nil =>
      obtain rfl := List.length_eq_zero_iff.mp length.symm
      cases isCommon
      simp
  | cons first firsts ih =>
      cases seconds with
      | nil => simp at length
      | cons second seconds =>
          rw [commonSides?_cons, Option.bind_eq_some_iff] at isCommon
          obtain ⟨side, isSide, mapped⟩ := isCommon
          obtain ⟨sides, isSides, rfl⟩ := Option.map_eq_some_iff.mp mapped
          obtain ⟨sameLength, least⟩ := ih (Nat.succ.inj length) isSides
          refine ⟨congrArg Nat.succ sameLength, fun targets => ?_⟩
          cases targets with
          | nil => simp
          | cons target targets =>
              simp only [List.forall₂_cons, least, commonSide?_eq_some isSide]
              tauto

theorem exists_commonSides? {firsts seconds targets : List Nat}
    (left : List.Forall₂ SideStretches firsts targets)
    (right : List.Forall₂ SideStretches seconds targets) :
    ∃ commons, commonSides? firsts seconds = some commons := by
  induction left generalizing seconds with
  | nil =>
      cases right
      exact ⟨[], rfl⟩
  | cons side sides ih =>
      cases right with
      | cons rightSide rightSides =>
          obtain ⟨common, isCommon⟩ := exists_commonSide? side rightSide
          obtain ⟨commons, areCommon⟩ := ih rightSides
          exact ⟨common :: commons, by rw [commonSides?_cons, isCommon, areCommon]; rfl⟩

variable {first second common : List Nat}

/-- Aligned at the last side, only the last sides of the target matter. -/
theorem forall_replicate_append_iff {count : Nat} {sides targets : List Nat}
    (length : targets.length = count + sides.length) :
    List.Forall₂ SideStretches (List.replicate count 1 ++ sides) targets ↔
      List.Forall₂ SideStretches sides (targets.drop count) := by
  induction count generalizing targets with
  | zero => simp
  | succ count ih =>
      cases targets with
      | nil =>
          simp only [List.length_nil] at length
          omega
      | cons target targets =>
          have rest : targets.length = count + sides.length := by
            simp only [List.length_cons] at length
            omega
          simp [List.replicate_succ, ih rest, SideStretches]

theorem stretches_iff_drop {source target : List Nat} (fits : source.length ≤ target.length) :
    Stretches source target ↔
      List.Forall₂ SideStretches source (target.drop (target.length - source.length)) := by
  rw [Stretches, padded, forall_replicate_append_iff (Nat.sub_add_cancel fits).symm]
  exact and_iff_right fits

theorem stretches_of_commonShape? (isCommon : commonShape? first second = some common)
    (target : List Nat) :
    Stretches common target ↔ Stretches first target ∧ Stretches second target := by
  have firstFits : first.length ≤ max first.length second.length := Nat.le_max_left ..
  have secondFits : second.length ≤ max first.length second.length := Nat.le_max_right ..
  obtain ⟨commonLength, least⟩ := commonSides?_eq_some
    (by rw [length_padded firstFits, length_padded secondFits]) isCommon
  rw [length_padded firstFits] at commonLength
  by_cases fits : max first.length second.length ≤ target.length
  · rw [← stretches_padded_iff firstFits fits, ← stretches_padded_iff secondFits fits,
      stretches_iff_drop (commonLength ▸ fits),
      stretches_iff_drop (by rwa [length_padded firstFits]),
      stretches_iff_drop (by rwa [length_padded secondFits]), least, commonLength,
      length_padded firstFits, length_padded secondFits]
  · have short : ¬ common.length ≤ target.length := commonLength ▸ fits
    simp only [Stretches]
    omega

theorem exists_commonShape? {target : List Nat} (left : Stretches first target)
    (right : Stretches second target) : ∃ common, commonShape? first second = some common := by
  have firstFits : first.length ≤ max first.length second.length := Nat.le_max_left ..
  have secondFits : second.length ≤ max first.length second.length := Nat.le_max_right ..
  have fits : max first.length second.length ≤ target.length := Nat.max_le.mpr ⟨left.1, right.1⟩
  rw [← stretches_padded_iff firstFits fits,
    stretches_iff_drop (by rwa [length_padded firstFits]), length_padded firstFits] at left
  rw [← stretches_padded_iff secondFits fits,
    stretches_iff_drop (by rwa [length_padded secondFits]),
    length_padded secondFits] at right
  exact exists_commonSides? left right

theorem isCommonShape_append {firsts seconds : List (List Nat)}
    (isFirst : IsCommonShape firsts first) (isSecond : IsCommonShape seconds second)
    (isCommon : commonShape? first second = some common) :
    IsCommonShape (firsts ++ seconds) common := by
  intro other
  simp only [stretches_of_commonShape? isCommon, isFirst other, isSecond other,
    List.mem_append, or_imp, forall_and]

theorem isCommonShape_singleton (shape : List Nat) : IsCommonShape [shape] shape := by
  simp [IsCommonShape]

theorem IsCommonShape.stretches {shapes : List (List Nat)} (isCommon : IsCommonShape shapes common)
    {shape : List Nat} (member : shape ∈ shapes) : Stretches shape common :=
  (isCommon common).mp (stretches_refl common) shape member

theorem IsCommonShape.unique {shapes : List (List Nat)} (isFirst : IsCommonShape shapes first)
    (isSecond : IsCommonShape shapes second) : first = second :=
  ((isFirst second).mpr fun _ => isSecond.stretches).antisymm
    ((isSecond first).mpr fun _ => isFirst.stretches)

theorem foldlM_commonShape?_eq_some {start : List Nat} {shapes : List (List Nat)}
    (isCommon : shapes.foldlM commonShape? start = some common) :
    IsCommonShape (start :: shapes) common := by
  induction shapes generalizing start with
  | nil =>
      cases isCommon
      exact isCommonShape_singleton _
  | cons shape shapes ih =>
      rw [List.foldlM_cons] at isCommon
      obtain ⟨next, isNext, rest⟩ := Option.bind_eq_some_iff.mp isCommon
      intro other
      simp [ih rest other, stretches_of_commonShape? isNext other, and_assoc]

theorem exists_foldlM_commonShape? {start target : List Nat} {shapes : List (List Nat)}
    (bounded : ∀ shape ∈ start :: shapes, Stretches shape target) :
    ∃ common, shapes.foldlM commonShape? start = some common := by
  induction shapes generalizing start with
  | nil => exact ⟨start, rfl⟩
  | cons shape shapes ih =>
      obtain ⟨first, second, rest⟩ := by simpa using bounded
      obtain ⟨next, isNext⟩ := exists_commonShape? first second
      have isBounded : ∀ shape ∈ next :: shapes, Stretches shape target := by
        simpa [stretches_of_commonShape? isNext, first, second] using rest
      obtain ⟨common, isCommon⟩ := ih isBounded
      exact ⟨common, by rw [List.foldlM_cons, isNext]; exact isCommon⟩

/-- The common shape of several shapes is their least upper bound. -/
theorem commonShapeOf?_eq_some_iff {shapes : List (List Nat)} :
    commonShapeOf? shapes = some common ↔ IsCommonShape shapes common := by
  have bottom : ∀ {other}, IsCommonShape ([] :: shapes) other ↔ IsCommonShape shapes other := by
    simp [IsCommonShape, stretches_nil]
  constructor
  · intro isCommon
    exact bottom.mp (foldlM_commonShape?_eq_some isCommon)
  · intro isCommon
    obtain ⟨other, isOther⟩ := exists_foldlM_commonShape?
      fun shape member => (bottom.mpr isCommon).stretches member
    rw [commonShapeOf?, isOther,
      (bottom.mp (foldlM_commonShape?_eq_some isOther)).unique isCommon]

end Common

end Grid

end ExprCalculus
