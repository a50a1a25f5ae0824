import ExprCalculus.Evaluation.Arithmetic

/-!
# Expansion

Products are pushed through sums and differences, and squares of sums are written
out, until no product has a sum below it.  The result is not simplified: the
square of `x + 1` becomes `x ^ 2 + 2 * x * 1 + 1 ^ 2`.
-/

namespace ExprCalculus

namespace Expr

variable {α : Type}

def distributeRight (left : Expr α) : Expr α → Expr α
  | binary .add first second =>
      distributeRight left first + distributeRight left second
  | binary .subtract first second =>
      distributeRight left first - distributeRight left second
  | right => left * right

/-- The product of two expressions, pushed through the sums of both. -/
def distribute : Expr α → Expr α → Expr α
  | binary .add first second, right => distribute first right + distribute second right
  | binary .subtract first second, right =>
      distribute first right - distribute second right
  | left, right => distributeRight left right

/-- Twice the product of two expressions, pushed through the sums of both. -/
def twiceProduct (arithmetic : Arithmetic α) (first second : Expr α) : Expr α :=
  distribute (distribute (.const (arithmetic.ofInt 2)) first) second

/-- The square of an expanded expression, with the squares of sums and differences
written out. -/
def expandedSquare (arithmetic : Arithmetic α) : Expr α → Expr α
  | binary .add first second =>
      expandedSquare arithmetic first + twiceProduct arithmetic first second
        + expandedSquare arithmetic second
  | binary .subtract first second =>
      expandedSquare arithmetic first - twiceProduct arithmetic first second
        + expandedSquare arithmetic second
  | base => base ^ (.const (arithmetic.ofInt 2) : Expr α)

def isSumOrDifference : Expr α → Bool
  | binary .add _ _ => true
  | binary .subtract _ _ => true
  | _ => false

mutual

def expand (arithmetic : Arithmetic α) : Expr α → Expr α
  | const value => const value
  | var name => var name
  | unary operator operand => unary operator (operand.expand arithmetic)
  | binary operator left right =>
      let first := left.expand arithmetic
      let second := right.expand arithmetic
      match operator with
      | .multiply => distribute first second
      | .power =>
          if first.isSumOrDifference
              && arithmetic.isConst (arithmetic.ofInt 2) second then
            expandedSquare arithmetic first
          else
            first ^ second
      | _ => binary operator first second
  | call name first others =>
      call name (first.expand arithmetic) (expandAll arithmetic others)
  | integral integrand name => integral (integrand.expand arithmetic) name

def expandAll (arithmetic : Arithmetic α) : List (Expr α) → List (Expr α)
  | [] => []
  | expression :: rest => expression.expand arithmetic :: expandAll arithmetic rest

end

end Expr

end ExprCalculus
