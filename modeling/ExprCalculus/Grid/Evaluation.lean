import ExprCalculus.Evaluation.Arithmetic
import ExprCalculus.Grid.Basic

/-!
# Evaluation over grids

When variables are bound to grids, an expression has a grid of values.  Operators
and functions act entry by entry on grids stretched to a common shape.
-/

namespace ExprCalculus

/-- Why an expression has no grid of values. -/
inductive GridFault (α : Type) where
  | shapes
  | evaluation (fault : EvaluationFault α)

namespace Expr

variable {α : Type}

mutual

def evaluateGrid (arithmetic : Arithmetic α) (functions : FunctionEnvironment α)
    (bindings : String → Option (Grid α)) : Expr α → Except (GridFault α) (Grid α)
  | const value => .ok (.single value)
  | var name =>
      match bindings name with
      | some grid => .ok grid
      | none => .error (.evaluation (.undefinedVariable name))
  | unary operator operand => do
      let grid ← operand.evaluateGrid arithmetic functions bindings
      (grid.mapM (arithmetic.unary operator)).mapError .evaluation
  | binary operator left right => do
      let leftGrid ← left.evaluateGrid arithmetic functions bindings
      let rightGrid ← right.evaluateGrid arithmetic functions bindings
      match leftGrid.zipWith? (arithmetic.binary operator) rightGrid with
      | some grid => return grid
      | none => .error .shapes
  | call name first others => do
      let grid ← first.evaluateGrid arithmetic functions bindings
      let grids ← evaluateGrids arithmetic functions bindings others
      match Grid.commonShapeOf? (grid.shape :: grids.map (·.shape)) with
      | none => .error .shapes
      | some shape =>
          let columns := (grid :: grids).map (Grid.stretchedTo shape)
          let rows := Grid.collate (positions shape) columns
          (Grid.mapM (arithmetic.callByName functions name) ⟨shape, rows⟩).mapError
            .evaluation
  | integral integrand _ => .error (.evaluation (.unknownIntegral integrand))

def evaluateGrids (arithmetic : Arithmetic α) (functions : FunctionEnvironment α)
    (bindings : String → Option (Grid α)) :
    List (Expr α) → Except (GridFault α) (List (Grid α))
  | [] => .ok []
  | expression :: rest => do
      let grid ← expression.evaluateGrid arithmetic functions bindings
      let grids ← evaluateGrids arithmetic functions bindings rest
      return grid :: grids

end

end Expr

end ExprCalculus
