import ExprCalculus.Evaluation.Doubles
import ExprCalculus.Grid.Evaluation
import ExprCalculus.Proofs.Grid.Contents

/-!
# Evaluation over grids refines evaluation

The variables of an expression are bound to grids that can all be stretched to one
box.  The grid of values exists exactly if the expression has a value at every index
of the box, and then its entry at an index is the value there.
-/

namespace ExprCalculus

namespace Expr

variable {α : Type}

mutual

/-- Entries of grids are combined as single values are, by every operator and function
of an expression. -/
def KernelsAgree (entrywise scalar : Arithmetic α) : Expr α → Prop
  | const _ => True
  | var _ => True
  | unary operator operand =>
      entrywise.unary operator = scalar.unary operator ∧ operand.KernelsAgree entrywise scalar
  | binary operator left right =>
      entrywise.binary operator = scalar.binary operator ∧
        left.KernelsAgree entrywise scalar ∧ right.KernelsAgree entrywise scalar
  | call name first others =>
      entrywise.named? (Text.toLower name) = scalar.named? (Text.toLower name) ∧
        first.KernelsAgree entrywise scalar ∧ KernelsAgreeAll entrywise scalar others
  | integral _ _ => True

def KernelsAgreeAll (entrywise scalar : Arithmetic α) : List (Expr α) → Prop
  | [] => True
  | expression :: rest =>
      expression.KernelsAgree entrywise scalar ∧ KernelsAgreeAll entrywise scalar rest

end

def boundShapes (bindings : String → Option (Grid α)) (names : List String) : List (List Nat) :=
  names.filterMap fun name => (bindings name).map (·.shape)

/-- The values of the variables at an index of a box. -/
def bindingsAt (bindings : String → Option (Grid α)) (index : List Nat) (name : String) :
    Option α :=
  (bindings name).bind (·.entryAt? index)

/-- Variables are bound to grids that can be stretched to a box. -/
def BoundWithin (box : List Nat) (bindings : String → Option (Grid α)) : Prop :=
  ∀ name grid, bindings name = some grid → grid.IsFull ∧ Grid.Stretches grid.shape box

section Refinement

variable {entrywise scalar : Arithmetic α} {functions : FunctionEnvironment α}
  {bindings : String → Option (Grid α)} {box : List Nat}

theorem boundShapes_append (first second : List String) :
    boundShapes bindings (first ++ second) =
      boundShapes bindings first ++ boundShapes bindings second := by
  simp [boundShapes]

theorem BoundWithin.stretches (bound : BoundWithin box bindings) (names : List String) :
    ∀ shape ∈ boundShapes bindings names, Grid.Stretches shape box := by
  intro shape member
  obtain ⟨name, -, isShape⟩ := List.mem_filterMap.mp member
  obtain ⟨grid, isGrid, rfl⟩ := Option.map_eq_some_iff.mp isShape
  exact (bound name grid isGrid).2

theorem callByName_congr {name : String}
    (same : entrywise.named? (Text.toLower name) = scalar.named? (Text.toLower name)) :
    entrywise.callByName functions name = scalar.callByName functions name := by
  funext arguments
  rw [Arithmetic.callByName, Arithmetic.callByName, same]

/-- A call has the value of its function at the list of the values of its arguments. -/
theorem evaluate_call {name : String} {first : Expr α} {others : List (Expr α)}
    {values : String → Option α} :
    (call name first others).evaluate scalar functions values =
      (do
        let value ← first.evaluate scalar functions values
        let row ← evaluateAll scalar functions values others
        return value :: row) >>= scalar.callByName functions name := by
  rw [evaluate, bind_assoc]
  simp only [bind_assoc, pure_bind]

mutual

theorem shows_evaluateGrid (bound : BoundWithin box bindings) {expression : Expr α}
    (kernels : expression.KernelsAgree entrywise scalar) {grid : Grid α}
    (isGrid : expression.evaluateGrid entrywise functions bindings = .ok grid) :
    Grid.Shows box (boundShapes bindings expression.occurrences)
      (fun index => expression.evaluate scalar functions (bindingsAt bindings index)) grid := by
  match expression with
  | .const value =>
      cases isGrid
      exact Grid.shows_single box value
  | .var name =>
      rw [evaluateGrid] at isGrid
      split at isGrid
      · next found isFound =>
          cases isGrid
          have isShape : boundShapes bindings [name] = [grid.shape] := by
            simp [boundShapes, isFound]
          refine ⟨(bound name grid isFound).1, ?_, ?_⟩
          · rw [occurrences, isShape]
            exact Grid.isCommonShape_singleton grid.shape
          · intro index within
            obtain ⟨value, isValue⟩ :=
              Grid.exists_entryAt? (bound name grid isFound).1 (bound name grid isFound).2 within
            exact ⟨value, isValue, by simp [evaluate, bindingsAt, isFound, isValue]⟩
      · cases isGrid
  | .unary operator operand =>
      obtain ⟨operandGrid, isOperand, isResult⟩ := except_bind_eq_ok.mp isGrid
      have shows := shows_evaluateGrid bound kernels.2 isOperand
      rw [mapError_eq_ok, kernels.1] at isResult
      exact shows.mapM isResult
  | .binary operator left right =>
      obtain ⟨leftGrid, isLeft, rest⟩ := except_bind_eq_ok.mp isGrid
      obtain ⟨rightGrid, isRight, isResult⟩ := except_bind_eq_ok.mp rest
      have showsLeft := shows_evaluateGrid bound kernels.2.1 isLeft
      have showsRight := shows_evaluateGrid bound kernels.2.2 isRight
      rw [occurrences, boundShapes_append]
      split at isResult
      · next result zipped =>
          cases isResult
          rw [kernels.1] at zipped
          exact showsLeft.zipWith? showsRight
            (boundShapes_append _ _ ▸ bound.stretches (left.occurrences ++ right.occurrences)) zipped
      · cases isResult
  | .call name first others =>
      obtain ⟨firstGrid, isFirst, rest⟩ := except_bind_eq_ok.mp isGrid
      obtain ⟨otherGrids, areOthers, isResult⟩ := except_bind_eq_ok.mp rest
      have showAll := (showAll_evaluateGrids bound kernels.2.2 areOthers).cons
        (shows_evaluateGrid bound kernels.2.1 isFirst)
      rw [← boundShapes_append] at showAll
      split at isResult
      · cases isResult
      · next shape isShape =>
          rw [mapError_eq_ok] at isResult
          have shows := (showAll.collate (bound.stretches _) isShape).mapM isResult
          simpa only [occurrences, evaluate_call, callByName_congr kernels.1] using shows
  | .integral integrand name => cases isGrid

theorem showAll_evaluateGrids (bound : BoundWithin box bindings) {expressions : List (Expr α)}
    (kernels : KernelsAgreeAll entrywise scalar expressions) {grids : List (Grid α)}
    (areGrids : evaluateGrids entrywise functions bindings expressions = .ok grids) :
    Grid.ShowAll box (boundShapes bindings (occurrencesAll expressions))
      (fun index => evaluateAll scalar functions (bindingsAt bindings index) expressions)
      grids := by
  match expressions with
  | [] =>
      cases areGrids
      exact Grid.showAll_nil box
  | expression :: rest =>
      obtain ⟨grid, isGrid, areRest⟩ := except_bind_eq_ok.mp areGrids
      obtain ⟨restGrids, isRest, made⟩ := except_bind_eq_ok.mp areRest
      cases made
      rw [occurrencesAll, boundShapes_append]
      exact Grid.ShowAll.cons (shows_evaluateGrid bound kernels.1 isGrid)
        (showAll_evaluateGrids bound kernels.2 isRest)

end

mutual

theorem exists_evaluateGrid (bound : BoundWithin box bindings) (inhabited : 0 < positions box)
    {expression : Expr α} (kernels : expression.KernelsAgree entrywise scalar)
    (defined : ∀ index, Grid.Within box index → ∃ value,
      expression.evaluate scalar functions (bindingsAt bindings index) = .ok value) :
    ∃ grid, expression.evaluateGrid entrywise functions bindings = .ok grid := by
  match expression with
  | .const value => exact ⟨.single value, rfl⟩
  | .var name =>
      obtain ⟨index, within, -⟩ := Grid.exists_place_eq (Grid.forall_sideStretches_refl box)
        inhabited inhabited
      obtain ⟨value, isValue⟩ := defined index within
      cases found : bindings name with
      | none => simp [evaluate, bindingsAt, found] at isValue
      | some grid => exact ⟨grid, by simp [evaluateGrid, found]⟩
  | .unary operator operand =>
      obtain ⟨grid, isGrid⟩ := exists_evaluateGrid bound inhabited kernels.2
        fun index within => first_returns_of_bind (defined index within)
      have shows := shows_evaluateGrid bound kernels.2 isGrid
      obtain ⟨result, isResult⟩ := shows.exists_mapM (bound.stretches _) inhabited defined
      refine ⟨result, except_bind_eq_ok.mpr ⟨grid, isGrid, ?_⟩⟩
      rw [mapError_eq_ok, kernels.1, isResult]
  | .binary operator left right =>
      obtain ⟨leftGrid, isLeft⟩ := exists_evaluateGrid bound inhabited kernels.2.1
        fun index within => first_returns_of_bind (defined index within)
      obtain ⟨rightGrid, isRight⟩ := exists_evaluateGrid bound inhabited kernels.2.2
        fun index within => by
          obtain ⟨_, -, next⟩ := returns_of_bind (defined index within)
          exact first_returns_of_bind next
      have showsLeft := shows_evaluateGrid bound kernels.2.1 isLeft
      have showsRight := shows_evaluateGrid bound kernels.2.2 isRight
      obtain ⟨result, zipped⟩ := showsLeft.exists_zipWith? showsRight
        (boundShapes_append _ _ ▸ bound.stretches (left.occurrences ++ right.occurrences))
        (entrywise.binary operator)
      refine ⟨result, except_bind_eq_ok.mpr ⟨leftGrid, isLeft,
        except_bind_eq_ok.mpr ⟨rightGrid, isRight, ?_⟩⟩⟩
      rw [zipped]
      rfl
  | .call name first others =>
      obtain ⟨firstGrid, isFirst⟩ := exists_evaluateGrid bound inhabited kernels.2.1
        fun index within => first_returns_of_bind (defined index within)
      obtain ⟨otherGrids, areOthers⟩ := exists_evaluateGrids bound inhabited kernels.2.2
        fun index within => by
          obtain ⟨_, -, next⟩ := returns_of_bind (defined index within)
          exact first_returns_of_bind next
      have showAll := (showAll_evaluateGrids bound kernels.2.2 areOthers).cons
        (shows_evaluateGrid bound kernels.2.1 isFirst)
      rw [← boundShapes_append] at showAll
      obtain ⟨shape, isShape⟩ := showAll.exists_commonShapeOf? (bound.stretches _)
      simp only [evaluate_call] at defined
      obtain ⟨result, isResult⟩ := (showAll.collate (bound.stretches _) isShape).exists_mapM
        (bound.stretches _) inhabited defined
      refine ⟨result, except_bind_eq_ok.mpr ⟨firstGrid, isFirst,
        except_bind_eq_ok.mpr ⟨otherGrids, areOthers, ?_⟩⟩⟩
      rw [List.map_cons] at isShape
      rw [isShape]
      exact mapError_eq_ok.mpr (callByName_congr kernels.1 ▸ isResult)
  | .integral integrand name =>
      obtain ⟨index, within, -⟩ := Grid.exists_place_eq (Grid.forall_sideStretches_refl box)
        inhabited inhabited
      obtain ⟨value, isValue⟩ := defined index within
      cases isValue

theorem exists_evaluateGrids (bound : BoundWithin box bindings) (inhabited : 0 < positions box)
    {expressions : List (Expr α)} (kernels : KernelsAgreeAll entrywise scalar expressions)
    (defined : ∀ index, Grid.Within box index → ∃ values,
      evaluateAll scalar functions (bindingsAt bindings index) expressions = .ok values) :
    ∃ grids, evaluateGrids entrywise functions bindings expressions = .ok grids := by
  match expressions with
  | [] => exact ⟨[], rfl⟩
  | expression :: rest =>
      obtain ⟨grid, isGrid⟩ := exists_evaluateGrid bound inhabited kernels.1
        fun index within => first_returns_of_bind (defined index within)
      obtain ⟨grids, areGrids⟩ := exists_evaluateGrids bound inhabited kernels.2
        fun index within => by
          obtain ⟨_, -, next⟩ := returns_of_bind (defined index within)
          exact first_returns_of_bind next
      exact ⟨grid :: grids, except_bind_eq_ok.mpr ⟨grid, isGrid,
        except_bind_eq_ok.mpr ⟨grids, areGrids, rfl⟩⟩⟩

end

theorem boundWithin_lookup {bindings : List (String × Grid α)}
    (full : ∀ binding ∈ bindings, binding.2.IsFull)
    (isBox : Grid.commonShapeOf? (bindings.map (·.2.shape)) = some box) :
    BoundWithin box (bindings.lookup ·) := by
  intro name grid found
  obtain ⟨before, after, rfl, -⟩ := List.lookup_eq_some_iff.mp found
  refine ⟨full (name, grid) (by simp), ?_⟩
  exact (Grid.commonShapeOf?_eq_some_iff.mp isBox).stretches (by simp)

/-- A common shape depends on the variables only, not on how often they occur. -/
theorem isCommonShape_variableNames {expression : Expr α} {shape : List Nat}
    (isCommon : Grid.IsCommonShape (boundShapes bindings expression.occurrences) shape) :
    Grid.IsCommonShape (boundShapes bindings expression.variableNames) shape := by
  have sameShapes : ∀ other, other ∈ boundShapes bindings expression.variableNames ↔
      other ∈ boundShapes bindings expression.occurrences := by
    simp [boundShapes, variableNames]
  intro other
  simpa [sameShapes] using isCommon other

variable (functions) in
/-- If an expression has a value at each index of the box that its variables are
stretched to, it has a grid of values, over the common shape of its variables and with
that value at each index.  If it has no value at some index, it has no grid of values. -/
theorem evaluateGrid_refines_evaluate {bindings : List (String × Grid α)} {expression : Expr α}
    (kernels : expression.KernelsAgree entrywise scalar)
    (full : ∀ binding ∈ bindings, binding.2.IsFull)
    (isBox : Grid.commonShapeOf? (bindings.map (·.2.shape)) = some box)
    (inhabited : 0 < positions box) :
    ((∀ index, Grid.Within box index → ∃ value, expression.evaluate scalar functions
          (bindingsAt (bindings.lookup ·) index) = .ok value) →
        ∃ grid, expression.evaluateGrid entrywise functions (bindings.lookup ·) = .ok grid ∧
          grid.IsFull ∧
          Grid.commonShapeOf? (boundShapes (bindings.lookup ·) expression.variableNames) =
            some grid.shape ∧
          ∀ index, Grid.Within box index → ∃ value, grid.entryAt? index = some value ∧
            expression.evaluate scalar functions (bindingsAt (bindings.lookup ·) index) =
              .ok value) ∧
      ∀ index fault, Grid.Within box index →
        expression.evaluate scalar functions (bindingsAt (bindings.lookup ·) index) =
          .error fault →
        ∃ gridFault, expression.evaluateGrid entrywise functions (bindings.lookup ·) =
          .error gridFault := by
  have bound := boundWithin_lookup full isBox
  constructor
  · intro defined
    obtain ⟨grid, isGrid⟩ := exists_evaluateGrid bound inhabited kernels defined
    have shows := shows_evaluateGrid bound kernels isGrid
    exact ⟨grid, isGrid, shows.full,
      Grid.commonShapeOf?_eq_some_iff.mpr (isCommonShape_variableNames shows.shape), shows.entry⟩
  · intro index fault within undefined
    cases isGrid : expression.evaluateGrid entrywise functions (bindings.lookup ·) with
    | error gridFault => exact ⟨gridFault, rfl⟩
    | ok grid =>
        obtain ⟨value, -, isValue⟩ := (shows_evaluateGrid bound kernels isGrid).entry index within
        rw [undefined] at isValue
        cases isValue

section Instance

def columnAndRow : List (String × Grid Float) :=
  [("x", ⟨[2, 1], [0.5, -2.0]⟩), ("y", ⟨[3], [1.0, 0.0, 4.0]⟩)]

def negatedProduct : Expr Float :=
  .var "x" * -.var "y"

theorem evaluateGrid_negatedProduct :
    ∃ grid, negatedProduct.evaluateGrid (Doubles.gridArithmetic .standard) []
        (columnAndRow.lookup ·) = .ok grid ∧ grid.shape = [2, 3] ∧
      ∀ index, Grid.Within [2, 3] index → ∃ value, grid.entryAt? index = some value ∧
        negatedProduct.evaluate (Doubles.arithmetic .standard) []
          (bindingsAt (columnAndRow.lookup ·) index) = .ok value := by
  have kernels : negatedProduct.KernelsAgree (Doubles.gridArithmetic .standard)
      (Doubles.arithmetic .standard) :=
    ⟨rfl, trivial, rfl, trivial⟩
  have full : ∀ binding ∈ columnAndRow, binding.2.IsFull := by
    simp [columnAndRow, Grid.IsFull, positions]
  have isBox : Grid.commonShapeOf? (columnAndRow.map (·.2.shape)) = some [2, 3] := by
    decide
  have bound := boundWithin_lookup full isBox
  have refines := evaluateGrid_refines_evaluate [] kernels full isBox (by decide)
  have defined : ∀ index, Grid.Within [2, 3] index → ∃ value, negatedProduct.evaluate
      (Doubles.arithmetic .standard) [] (bindingsAt (columnAndRow.lookup ·) index) =
        .ok value := by
    intro index within
    obtain ⟨x, isX⟩ := Grid.exists_entryAt? (bound "x" _ rfl).1 (bound "x" _ rfl).2 within
    obtain ⟨y, isY⟩ := Grid.exists_entryAt? (bound "y" _ rfl).1 (bound "y" _ rfl).2 within
    have xBound : bindingsAt (columnAndRow.lookup ·) index "x" = some x := isX
    have yBound : bindingsAt (columnAndRow.lookup ·) index "y" = some y := isY
    have xValue : (var "x" : Expr Float).evaluate (Doubles.arithmetic .standard) []
        (bindingsAt (columnAndRow.lookup ·) index) = .ok x := by rw [evaluate, xBound]
    have yValue : (var "y" : Expr Float).evaluate (Doubles.arithmetic .standard) []
        (bindingsAt (columnAndRow.lookup ·) index) = .ok y := by rw [evaluate, yBound]
    exact ⟨x * -y, except_bind_eq_ok.mpr ⟨x, xValue, except_bind_eq_ok.mpr
      ⟨-y, except_bind_eq_ok.mpr ⟨y, yValue, rfl⟩, rfl⟩⟩⟩
  obtain ⟨grid, isGrid, -, isShape, entries⟩ := refines.1 defined
  refine ⟨grid, isGrid, ?_, entries⟩
  have names : negatedProduct.variableNames = ["x", "y"] := by
    apply List.mergeSort_of_pairwise
    decide
  rw [names] at isShape
  exact (Option.some.inj isShape).symm

end Instance

end Refinement

end Expr

end ExprCalculus
