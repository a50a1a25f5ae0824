import ExprCalculus.Proofs.Grid.Shapes
import Mathlib.Tactic.Ring

/-!
# Entries of grids

The entries of a grid are listed row after row, so an index of a box has a place in
the list.  A grid that can be stretched to a box has an entry at each index of the
box, and stretching it to any shape in between leaves that entry as it is.
-/

namespace ExprCalculus

namespace Grid

/-- An index of a box has one coordinate below each side. -/
def Within (box index : List Nat) : Prop :=
  List.Forall₂ (fun side coordinate => coordinate < side) box index

/-- An index names a position of a box when coordinates along sides of length one do
not count. -/
def Fits (shape index : List Nat) : Prop :=
  List.Forall₂ (fun side coordinate => side = 1 ∨ coordinate < side) shape index

/-- The place of an index in the list of the positions of a box.  A side of length one
has the same position for each coordinate. -/
def place : List Nat → List Nat → Nat
  | side :: sides, coordinate :: index =>
      (if side = 1 then 0 else coordinate) * positions sides + place sides index
  | _, _ => 0

variable {α β : Type}

/-- The entry of a grid at an index of a box that the grid can be stretched to. -/
def entryAt? (grid : Grid α) (index : List Nat) : Option α :=
  grid.entries[place (padded index.length grid.shape) index]?

/-- A grid has one entry for each position of its box. -/
def IsFull (grid : Grid α) : Prop :=
  grid.entries.length = positions grid.shape

section Places

@[simp]
theorem positions_cons (side : Nat) (sides : List Nat) :
    positions (side :: sides) = side * positions sides := rfl

theorem place_lt {shape index : List Nat} (fits : Fits shape index) :
    place shape index < positions shape := by
  induction fits with
  | nil => simp [place, positions]
  | @cons side coordinate sides index inside rest ih =>
      have below : (if side = 1 then 0 else coordinate) < side := by
        split <;> omega
      have row := Nat.mul_le_mul_right (positions sides) (Nat.succ_le_of_lt below)
      rw [Nat.succ_mul] at row
      simp only [place, positions_cons]
      omega

theorem Within.length {box index : List Nat} (within : Within box index) :
    index.length = box.length :=
  within.length_eq.symm

theorem Within.fits {box index : List Nat} (within : Within box index) : Fits box index :=
  within.imp fun _ _ inside => .inr inside

theorem Fits.of_sideStretches {shape target index : List Nat}
    (sides : List.Forall₂ SideStretches shape target) (fits : Fits target index) :
    Fits shape index := by
  induction sides generalizing index with
  | nil =>
      cases fits
      exact .nil
  | cons side sides ih =>
      cases fits with
      | cons inside fits =>
          refine .cons ?_ (ih fits)
          simp only [SideStretches] at side
          omega

/-- Every place in the list of positions is that of some index of a box that the shape
can be stretched to. -/
theorem exists_place_eq {shape box : List Nat} (sides : List.Forall₂ SideStretches shape box)
    (inhabited : 0 < positions box) {position : Nat} (below : position < positions shape) :
    ∃ index, Within box index ∧ place shape index = position := by
  induction sides generalizing position with
  | nil =>
      obtain rfl : position = 0 := by simpa [positions] using below
      exact ⟨[], .nil, rfl⟩
  | @cons side target sides targets stretches rest ih =>
      rw [positions_cons] at inhabited below
      have inner : 0 < positions targets := Nat.pos_of_mul_pos_left inhabited
      have outer : 0 < target := Nat.pos_of_mul_pos_right inhabited
      by_cases single : side = 1
      · rw [single, Nat.one_mul] at below
        obtain ⟨index, within, rfl⟩ := ih inner below
        exact ⟨0 :: index, .cons outer within, by simp [place]⟩
      · obtain rfl : side = target := stretches.resolve_right single
        have room : 0 < positions sides := by
          apply Nat.pos_of_ne_zero
          rintro empty
          simp [empty] at below
        obtain ⟨index, within, remainder⟩ := ih inner (Nat.mod_lt position room)
        refine ⟨position / positions sides :: index, .cons ?_ within, ?_⟩
        · exact (Nat.div_lt_iff_lt_mul room).mpr below
        · rw [place, if_neg single, remainder, Nat.mul_comm, Nat.div_add_mod]

end Places

section Stretching

section Rows

variable {count width : Nat} {row : Nat → List α}

theorem length_flatMap_range (widths : ∀ number < count, (row number).length = width) :
    ((List.range count).flatMap row).length = count * width := by
  induction count with
  | zero => simp
  | succ count ih =>
      have earlier := ih fun number below => widths number (Nat.lt_succ_of_lt below)
      rw [List.range_succ, List.flatMap_append, List.length_append, earlier, Nat.succ_mul]
      simpa using widths count (Nat.lt_succ_self count)

/-- The place of an element of rows of equal length. -/
theorem getElem?_flatMap_range (widths : ∀ number < count, (row number).length = width)
    {number column : Nat} (inRange : number < count) (inRow : column < width) :
    ((List.range count).flatMap row)[number * width + column]? = (row number)[column]? := by
  induction count with
  | zero => simp at inRange
  | succ count ih =>
      have earlier : ∀ number < count, (row number).length = width :=
        fun number below => widths number (Nat.lt_succ_of_lt below)
      have length := length_flatMap_range earlier
      rw [List.range_succ, List.flatMap_append]
      obtain rfl | before := Nat.eq_or_lt_of_le (Nat.le_of_lt_succ inRange)
      · rw [List.getElem?_append_right (by omega), length]
        simp
      · have rows := Nat.mul_le_mul_right width (Nat.succ_le_of_lt before)
        rw [Nat.succ_mul] at rows
        rw [List.getElem?_append_left (by omega)]
        exact ih earlier before

theorem flatten_replicate (count : Nat) (entries : List α) :
    (List.replicate count entries).flatten = (List.range count).flatMap fun _ => entries := by
  rw [List.flatMap_def, List.map_const', List.length_range]

end Rows

variable {source step number : Nat} {entries : List α}

theorem length_layer (full : entries.length = source * step) (inRange : number < source) :
    ((entries.drop (number * step)).take step).length = step := by
  have rows := Nat.mul_le_mul_right step (Nat.succ_le_of_lt inRange)
  rw [Nat.succ_mul] at rows
  simp only [List.length_take, List.length_drop, full]
  omega

theorem getElem?_layer {column : Nat} (inRow : column < step) :
    ((entries.drop (number * step)).take step)[column]? = entries[number * step + column]? := by
  rw [List.getElem?_take_of_lt inRow, List.getElem?_drop]

theorem length_stretch {sources targets : List Nat}
    (sides : List.Forall₂ SideStretches sources targets)
    (full : entries.length = positions sources) :
    (stretch sources targets entries).length = positions targets := by
  induction sides generalizing entries with
  | nil => simpa [stretch] using full
  | @cons source target sources targets side sides ih =>
      have layers := length_flatMap_range fun number (inRange : number < source) =>
        ih (length_layer full inRange)
      rw [stretch]
      split
      · next same => rw [layers, same, positions_cons]
      · next differs =>
          obtain rfl := side.resolve_left differs
          rw [flatten_replicate, length_flatMap_range fun _ _ => layers, Nat.one_mul,
            positions_cons]

/-- Stretching a box leaves the entry at each index as it is. -/
theorem getElem?_stretch {sources targets index : List Nat}
    (sides : List.Forall₂ SideStretches sources targets)
    (full : entries.length = positions sources) (fits : Fits targets index) :
    (stretch sources targets entries)[place targets index]? = entries[place sources index]? := by
  induction sides generalizing entries index with
  | nil => cases fits; rfl
  | @cons source target sources targets side sides ih =>
      cases fits with
      | @cons _ coordinate _ index inside fits =>
          have widths : ∀ number < source, (stretch sources targets
              ((entries.drop (number * positions sources)).take (positions sources))).length =
                positions targets :=
            fun number inRange => length_stretch sides (length_layer full inRange)
          have inRow := place_lt fits
          have inSource : place sources index < positions sources :=
            place_lt (Fits.of_sideStretches sides fits)
          have row : ∀ number < source, ((List.range source).flatMap fun number =>
              stretch sources targets ((entries.drop (number * positions sources)).take
                (positions sources)))[number * positions targets + place targets index]? =
                entries[number * positions sources + place sources index]? := by
            intro number inRange
            rw [getElem?_flatMap_range widths inRange inRow, ih (length_layer full inRange) fits,
              getElem?_layer inSource]
          rw [stretch, place, place]
          split
          · next same =>
              subst same
              apply row
              split <;> omega
          · next differs =>
              obtain rfl := side.resolve_left differs
              have repeated := inside.resolve_left (Ne.symm differs)
              have layers := length_flatMap_range widths
              simp only [Nat.one_mul] at layers
              rw [if_neg (Ne.symm differs), if_pos rfl, flatten_replicate,
                getElem?_flatMap_range (fun _ _ => layers) repeated inRow]
              simpa using row 0 Nat.one_pos

/-- Sides of length one in front of both shapes do not matter. -/
theorem stretch_padded {dimension : Nat} {sources targets : List Nat}
    (length : sources.length = targets.length) (full : entries.length = positions sources) :
    stretch (padded dimension sources) (padded dimension targets) entries =
      stretch sources targets entries := by
  rw [padded, padded, length]
  induction dimension - targets.length with
  | zero => rfl
  | succ count ih =>
      have rest : positions (List.replicate count 1 ++ sources) = entries.length := by
        rw [positions_replicate_append, full]
      simpa [List.replicate_succ, stretch, rest] using ih

end Stretching

section Grids

variable {grid : Grid α} {shape box index : List Nat}

theorem length_stretchedTo (full : grid.IsFull) (stretches : Stretches grid.shape shape) :
    (grid.stretchedTo shape).length = positions shape :=
  length_stretch stretches.2 (by rwa [positions_padded])

/-- Stretching a grid to a shape below a box leaves the entry at each index of the box
as it is. -/
theorem getElem?_stretchedTo (full : grid.IsFull) (lower : Stretches grid.shape shape)
    (upper : Stretches shape box) (within : Within box index) :
    (grid.stretchedTo shape)[place (padded index.length shape) index]? =
      grid.entryAt? index := by
  have boxFull : grid.entries.length = positions (padded box.length grid.shape) := by
    rwa [positions_padded]
  have moved := getElem?_stretch (lower.padded upper.1) boxFull
    (Fits.of_sideStretches upper.2 within.fits)
  rw [← padded_padded lower.1 upper.1, stretch_padded (length_padded lower.1)
    (by rwa [positions_padded]), padded_padded lower.1 upper.1] at moved
  rwa [entryAt?, within.length]

theorem exists_entryAt? (full : grid.IsFull) (stretches : Stretches grid.shape box)
    (within : Within box index) : ∃ entry, grid.entryAt? index = some entry := by
  have inRange := place_lt (Fits.of_sideStretches stretches.2 within.fits)
  rw [positions_padded, ← full] at inRange
  exact ⟨_, by rw [entryAt?, within.length, List.getElem?_eq_getElem inRange]⟩

theorem exists_entryAt?_eq (full : grid.IsFull) (stretches : Stretches grid.shape box)
    (inhabited : 0 < positions box) {entry : α} (member : entry ∈ grid.entries) :
    ∃ index, Within box index ∧ grid.entryAt? index = some entry := by
  obtain ⟨position, below, rfl⟩ := List.mem_iff_getElem.mp member
  have inBox : position < positions (padded box.length grid.shape) := by
    rwa [positions_padded, ← full]
  obtain ⟨index, within, isPlace⟩ := exists_place_eq stretches.2 inhabited inBox
  refine ⟨index, within, ?_⟩
  rw [entryAt?, within.length, isPlace, List.getElem?_eq_getElem below]

end Grids

end Grid

end ExprCalculus
