import ExprCalculus.Calculus.Builders

/-!
# Affine expressions

An expression is affine in a variable when it is a multiple of the variable plus
a number.  `Expr.affine?` finds the two numbers by the shape of the expression,
where variable-free parts count by their value.
-/

namespace ExprCalculus

/-- The expression `slope * x + intercept` in a variable `x`. -/
structure Affine (α : Type) where
  slope : α
  intercept : α
deriving Repr

namespace Affine

variable {α : Type} (arithmetic : Arithmetic α)

def map (image : α → α) (affine : Affine α) : Affine α :=
  ⟨image affine.slope, image affine.intercept⟩

/-- The sum of an affine expression and a multiple of another. -/
def plus (sign : Int) (first second : Affine α) : Affine α :=
  let multiple := second.map (arithmetic.mul (arithmetic.ofInt sign))
  ⟨arithmetic.add first.slope multiple.slope,
    arithmetic.add first.intercept multiple.intercept⟩

end Affine

namespace Expr

variable {α : Type}

def finiteValue? (arithmetic : Arithmetic α) (expression : Expr α) :
    Except (EvaluationFault α) (Option α) :=
  if expression.isConstant then
    match expression.closedValue arithmetic with
    | .ok value => .ok (if arithmetic.isFinite value then some value else none)
    | .error fault => if fault.isOrdinary then .ok none else .error fault
  else
    .ok none

def affine? (arithmetic : Arithmetic α) (name : String) (expression : Expr α) :
    Except (EvaluationFault α) (Option (Affine α)) :=
  if expression.isVar name then
    .ok (some ⟨arithmetic.one, arithmetic.zero⟩)
  else if !expression.mentions name then do
    let value ← expression.finiteValue? arithmetic
    return value.map fun number => ⟨arithmetic.zero, number⟩
  else
    match expression with
    | unary .negate operand => do
        let inner ← operand.affine? arithmetic name
        return inner.map (Affine.map arithmetic.neg)
    | binary .add left right => do
        let first ← left.affine? arithmetic name
        let second ← right.affine? arithmetic name
        return first.bind fun one => second.map (Affine.plus arithmetic 1 one)
    | binary .subtract left right => do
        let first ← left.affine? arithmetic name
        let second ← right.affine? arithmetic name
        return first.bind fun one => second.map (Affine.plus arithmetic (-1) one)
    | binary .multiply left right => do
        match ← left.finiteValue? arithmetic with
        | some scale =>
            let inner ← right.affine? arithmetic name
            return inner.map (Affine.map (arithmetic.mul scale))
        | none =>
            match ← right.finiteValue? arithmetic with
            | some scale =>
                let inner ← left.affine? arithmetic name
                return inner.map (Affine.map (arithmetic.mul scale))
            | none => return none
    | binary .divide left right => do
        match ← right.finiteValue? arithmetic with
        | some divisor =>
            if arithmetic.isZero divisor then
              return none
            else
              let inner ← left.affine? arithmetic name
              return inner.map (Affine.map fun number => arithmetic.div number divisor)
        | none => return none
    | _ => .ok none

end Expr

end ExprCalculus
