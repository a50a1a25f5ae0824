import ExprCalculus.Proofs.Grid.Entries
import ExprCalculus.Proofs.Outcomes

/-!
# Contents of grids

A grid shows the values that are computed at the indices of a box.  This is kept when
a grid is computed entry by entry, when two grids are combined, and when the entries
of several grids are collated into lists.
-/

namespace ExprCalculus

theorem getElem?_of_forall {α β : Type} {related : α → β → Prop} {firsts : List α}
    {seconds : List β} (all : List.Forall₂ related firsts seconds) {position : Nat} {first : α}
    (isFirst : firsts[position]? = some first) :
    ∃ second, seconds[position]? = some second ∧ related first second := by
  induction all generalizing position with
  | nil => simp at isFirst
  | cons head tail ih =>
      cases position with
      | zero =>
          obtain rfl := Option.some.inj isFirst
          exact ⟨_, rfl, head⟩
      | succ position => exact ih isFirst

theorem exists_forall {α β : Type} {related : α → β → Prop} {firsts : List α}
    (total : ∀ first ∈ firsts, ∃ second, related first second) :
    ∃ seconds, List.Forall₂ related firsts seconds := by
  induction firsts with
  | nil => exact ⟨[], .nil⟩
  | cons first firsts ih =>
      obtain ⟨⟨second, isSecond⟩, rest⟩ := List.forall_mem_cons.mp total
      obtain ⟨seconds, areSeconds⟩ := ih rest
      exact ⟨second :: seconds, .cons isSecond areSeconds⟩

namespace Grid

/-- A grid over the common shape of the given shapes has at each index of a box the
value that is computed there. -/
structure Shows {ε α : Type} (box : List Nat) (shapes : List (List Nat))
    (values : List Nat → Except ε α) (grid : Grid α) : Prop where
  full : grid.IsFull
  shape : IsCommonShape shapes grid.shape
  entry : ∀ index, Within box index →
    ∃ value, grid.entryAt? index = some value ∧ values index = .ok value

section Shows

variable {ε α β : Type} {box : List Nat} {shapes : List (List Nat)}
  {values : List Nat → Except ε α} {grid : Grid α}

theorem Shows.stretches (shows : Shows box shapes values grid)
    (bounded : ∀ shape ∈ shapes, Stretches shape box) : Stretches grid.shape box :=
  (shows.shape box).mpr bounded

theorem shows_single (box : List Nat) (value : α) :
    Shows (ε := ε) box [] (fun _ => .ok value) (.single value) where
  full := rfl
  shape other := by simp [single, stretches_nil]
  entry index within := by
    have fits := Fits.of_sideStretches (stretches_nil box).2 within.fits
    have first := place_lt fits
    rw [positions_padded] at first
    obtain first : place (padded box.length []) index = 0 := Nat.lt_one_iff.mp first
    exact ⟨value, by simp [entryAt?, single, within.length, first], rfl⟩

/-- The images of the entries are the images of the values. -/
theorem Shows.mapM (shows : Shows box shapes values grid) {image : α → Except ε β}
    {result : Grid β} (isResult : grid.mapM image = .ok result) :
    Shows box shapes (fun index => values index >>= image) result := by
  obtain ⟨entries, areEntries, made⟩ := except_bind_eq_ok.mp isResult
  cases made
  have related := mapM_eq_ok.mp areEntries
  refine ⟨?_, shows.shape, ?_⟩
  · exact related.length_eq.symm.trans shows.full
  · intro index within
    obtain ⟨value, isEntry, isValue⟩ := shows.entry index within
    obtain ⟨mapped, isMapped, isImage⟩ := getElem?_of_forall related isEntry
    exact ⟨mapped, isMapped, except_bind_eq_ok.mpr ⟨value, isValue, isImage⟩⟩

/-- If every value has an image, so has every entry. -/
theorem Shows.exists_mapM (shows : Shows box shapes values grid)
    (bounded : ∀ shape ∈ shapes, Stretches shape box) (inhabited : 0 < positions box)
    {image : α → Except ε β}
    (defined : ∀ index, Within box index → ∃ result, (values index >>= image) = .ok result) :
    ∃ result, grid.mapM image = .ok result := by
  have total : ∀ entry ∈ grid.entries, ∃ result, image entry = .ok result := by
    intro entry member
    obtain ⟨index, within, isEntry⟩ :=
      exists_entryAt?_eq shows.full (shows.stretches bounded) inhabited member
    obtain ⟨value, isValue, valueOk⟩ := shows.entry index within
    obtain rfl := Option.some.inj (isEntry.symm.trans isValue)
    simpa [valueOk, bind, Except.bind] using defined index within
  obtain ⟨results, related⟩ := exists_forall total
  refine ⟨⟨grid.shape, results⟩, ?_⟩
  rw [Grid.mapM, mapM_eq_ok.mpr related]
  rfl

end Shows

section Pairs

variable {ε α β : Type} {box : List Nat} {firstShapes secondShapes : List (List Nat)}
  {firstValues secondValues : List Nat → Except ε α} {first second : Grid α}

theorem Shows.zipWith? (showsFirst : Shows box firstShapes firstValues first)
    (showsSecond : Shows box secondShapes secondValues second)
    (bounded : ∀ shape ∈ firstShapes ++ secondShapes, Stretches shape box) {combine : α → α → β}
    {result : Grid β} (isResult : Grid.zipWith? combine first second = some result) :
    Shows box (firstShapes ++ secondShapes) (fun index => do
      let firstValue ← firstValues index
      let secondValue ← secondValues index
      return combine firstValue secondValue) result := by
  obtain ⟨shape, isShape, made⟩ := Option.bind_eq_some_iff.mp isResult
  cases made
  have common := isCommonShape_append showsFirst.shape showsSecond.shape isShape
  have upper : Stretches shape box := (common box).mpr bounded
  obtain ⟨firstLower, secondLower⟩ :=
    (stretches_of_commonShape? isShape shape).mp (stretches_refl shape)
  refine ⟨?_, common, ?_⟩
  · simp [IsFull, length_stretchedTo showsFirst.full firstLower,
      length_stretchedTo showsSecond.full secondLower]
  · intro index within
    obtain ⟨firstValue, isFirst, firstOk⟩ := showsFirst.entry index within
    obtain ⟨secondValue, isSecond, secondOk⟩ := showsSecond.entry index within
    refine ⟨combine firstValue secondValue, ?_, ?_⟩
    · rw [← getElem?_stretchedTo showsFirst.full firstLower upper within] at isFirst
      rw [← getElem?_stretchedTo showsSecond.full secondLower upper within] at isSecond
      simp [entryAt?, List.getElem?_zipWith, isFirst, isSecond]
    · simp [firstOk, secondOk, bind, Except.bind, pure, Except.pure]

theorem Shows.exists_zipWith? (showsFirst : Shows box firstShapes firstValues first)
    (showsSecond : Shows box secondShapes secondValues second)
    (bounded : ∀ shape ∈ firstShapes ++ secondShapes, Stretches shape box)
    (combine : α → α → β) : ∃ result, Grid.zipWith? combine first second = some result := by
  obtain ⟨firstBounded, secondBounded⟩ := List.forall_mem_append.mp bounded
  obtain ⟨shape, isShape⟩ := exists_commonShape? (showsFirst.stretches firstBounded)
    (showsSecond.stretches secondBounded)
  exact ⟨_, by rw [Grid.zipWith?, isShape]; rfl⟩

end Pairs

section Rows

variable {ε α : Type} {box : List Nat} {shapes restShapes : List (List Nat)}

/-- Several grids together have at each index of a box the list of values that is
computed there. -/
structure ShowAll {ε α : Type} (box : List Nat) (shapes : List (List Nat))
    (rows : List Nat → Except ε (List α)) (grids : List (Grid α)) : Prop where
  full : ∀ grid ∈ grids, grid.IsFull
  shape : ∀ other, (∀ shape ∈ grids.map (·.shape), Stretches shape other) ↔
    ∀ shape ∈ shapes, Stretches shape other
  entry : ∀ index, Within box index → ∃ row, rows index = .ok row ∧
    List.Forall₂ (fun grid value => grid.entryAt? index = some value) grids row

theorem showAll_nil (box : List Nat) : ShowAll (ε := ε) (α := α) box [] (fun _ => .ok []) [] where
  full := by simp
  shape := by simp
  entry index within := ⟨[], rfl, .nil⟩

theorem ShowAll.cons {values : List Nat → Except ε α} {rows : List Nat → Except ε (List α)}
    {grid : Grid α} {grids : List (Grid α)} (shows : Shows box shapes values grid)
    (showAll : ShowAll box restShapes rows grids) :
    ShowAll box (shapes ++ restShapes) (fun index => do
      let value ← values index
      let row ← rows index
      return value :: row) (grid :: grids) where
  full := List.forall_mem_cons.mpr ⟨shows.full, showAll.full⟩
  shape other := by
    rw [List.map_cons, List.forall_mem_cons, List.forall_mem_append, shows.shape other,
      showAll.shape other]
  entry index within := by
    obtain ⟨value, isEntry, valueOk⟩ := shows.entry index within
    obtain ⟨row, rowOk, related⟩ := showAll.entry index within
    exact ⟨value :: row, by simp [valueOk, rowOk, bind, Except.bind, pure, Except.pure],
      .cons isEntry related⟩

theorem length_collate {count : Nat} {columns : List (List α)}
    (lengths : ∀ column ∈ columns, column.length = count) :
    (collate count columns).length = count := by
  induction columns with
  | nil => simp [collate]
  | cons column columns ih =>
      obtain ⟨first, rest⟩ := List.forall_mem_cons.mp lengths
      simp [collate, first, ih rest]

theorem getElem?_collate {count position : Nat} {columns : List (List α)} {row : List α}
    (inRange : position < count)
    (related : List.Forall₂ (fun column value => column[position]? = some value) columns row) :
    (collate count columns)[position]? = some row := by
  induction related with
  | nil => simp [collate, inRange]
  | cons isValue related ih => simp [collate, List.getElem?_zipWith, isValue, ih]

theorem ShowAll.collate {rows : List Nat → Except ε (List α)} {grids : List (Grid α)}
    {shape : List Nat} (showAll : ShowAll box shapes rows grids)
    (bounded : ∀ shape ∈ shapes, Stretches shape box)
    (isShape : commonShapeOf? (grids.map (·.shape)) = some shape) :
    Shows box shapes rows
      ⟨shape, Grid.collate (positions shape) (grids.map (Grid.stretchedTo shape))⟩ := by
  have common : IsCommonShape shapes shape := fun other =>
    (commonShapeOf?_eq_some_iff.mp isShape other).trans (showAll.shape other)
  have upper : Stretches shape box := (common box).mpr bounded
  have fits : ∀ grid ∈ grids, grid.IsFull ∧ Stretches grid.shape shape := fun grid member =>
    ⟨showAll.full grid member,
      (commonShapeOf?_eq_some_iff.mp isShape).stretches (List.mem_map_of_mem member)⟩
  refine ⟨?_, common, ?_⟩
  · apply length_collate
    intro column member
    obtain ⟨grid, isGrid, rfl⟩ := List.mem_map.mp member
    exact length_stretchedTo (fits grid isGrid).1 (fits grid isGrid).2
  · intro index within
    obtain ⟨row, rowOk, related⟩ := showAll.entry index within
    have inRange := place_lt (Fits.of_sideStretches upper.2 within.fits)
    rw [positions_padded] at inRange
    refine ⟨row, ?_, rowOk⟩
    rw [entryAt?, within.length]
    apply getElem?_collate inRange
    rw [List.forall₂_map_left_iff]
    refine ((List.forall₂_and_left _ _).mpr ⟨fits, related⟩).imp ?_
    rintro grid value ⟨⟨full, stretches⟩, isEntry⟩
    rwa [← within.length, getElem?_stretchedTo full stretches upper within]

theorem ShowAll.exists_commonShapeOf? {rows : List Nat → Except ε (List α)}
    {grids : List (Grid α)} (showAll : ShowAll box shapes rows grids)
    (bounded : ∀ shape ∈ shapes, Stretches shape box) :
    ∃ shape, commonShapeOf? (grids.map (·.shape)) = some shape :=
  exists_foldlM_commonShape? (List.forall_mem_cons.mpr
    ⟨stretches_nil box, (showAll.shape box).mpr bounded⟩)

end Rows

end Grid

end ExprCalculus
