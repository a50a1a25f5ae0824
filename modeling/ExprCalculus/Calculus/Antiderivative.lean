import ExprCalculus.Calculus.Affine
import ExprCalculus.Calculus.Fault
import ExprCalculus.Expr.Substitution
import ExprCalculus.Simplification.Basic

/-!
# Antiderivatives

Integration tries a fixed sequence of rules at each node: constants and the
variable, powers of the variable, sums, constant multiples, a few products, the
reciprocals of affine and of simple quadratic expressions, and a table of
elementary functions of affine arguments.  A part that no rule matches is left as
the marker of an unknown integral and reported, and the rest is integrated around
it.
-/

namespace ExprCalculus

/-- An antiderivative, and whether all of it was found. -/
structure Antiderivative (α : Type) where
  tree : Expr α
  supported : Bool

namespace Antiderivative

variable {α : Type} (arithmetic : Arithmetic α) (name : String)

abbrev Integrating (α β : Type) :=
  Traced (Notice α) (EvaluationFault α) β

def found (tree : Expr α) : Integrating α (Antiderivative α) :=
  pure ⟨tree, true⟩

/-- The marker of an integral that no rule matches. -/
def left (integrand : Expr α) (gap : IntegralGap) : Integrating α (Antiderivative α) := do
  Traced.note (.integralLeft integrand name gap)
  return ⟨.integral integrand name, false⟩

def rule? (function : String) : Option (Expr α → Expr α) :=
  match function with
  | "sin" => some fun u => -u.cos
  | "cos" => some fun u => u.sin
  | "tan" => some fun u => -u.cos.abs.ln
  | "sec" => some fun u => (u.sec + u.tan).abs.ln
  | "csc" => some fun u => -(u.csc + u.cot).abs.ln
  | "cot" => some fun u => u.sin.abs.ln
  | "exp" => some fun u => u.exp
  | "ln" => some fun u => u * u.ln - u
  | "log" => some fun u => u * u.ln - u
  | "log10" => some fun u => (u * u.ln - u) / (arithmetic.number 10).ln
  | "sqrt" =>
      let twoThirds := arithmetic.div (arithmetic.ofInt 2) (arithmetic.ofInt 3)
      let threeHalves := arithmetic.div (arithmetic.ofInt 3) (arithmetic.ofInt 2)
      some fun u => .const twoThirds * u ^ (.const threeHalves : Expr α)
  | "sinh" => some fun u => u.cosh
  | "cosh" => some fun u => u.sinh
  | "tanh" => some fun u => u.cosh.ln
  | _ => none

/-- A variable that does not occur among the given ones: the first of `_u`, `_u1`,
`_u2` and so on. -/
def freshName (taken : List String) : String :=
  let candidate := fun (number : Nat) =>
    if number = 0 then "_u" else "_u" ++ toString number
  ((List.range (taken.length + 1)).map candidate).find? (!taken.contains ·) |>.getD "_u"

/-- The antiderivative of a function of the given name at an argument.  For an
affine argument the rule is used with a fresh variable in its place, and the
result is divided by the slope. -/
def elementary (integrand : Expr α) (function : String) (argument : Expr α) :
    Integrating α (Antiderivative α) :=
  match rule? arithmetic function with
  | none => left name integrand (.function function)
  | some rule =>
      if argument.isVar name then
        found (rule argument)
      else do
        match ← Traced.ofExcept (argument.affine? arithmetic name) with
        | some affine =>
            if arithmetic.near affine.slope arithmetic.zero then
              left name integrand (.argument function)
            else
              let fresh := freshName integrand.occurrences
              let substituted := Expr.substitute fresh argument (rule (.var fresh))
              found (substituted / .const affine.slope)
        | none => left name integrand (.argument function)

/-- The number that a constant or a negated constant stands for. -/
def literal? : Expr α → Option α
  | .const value => some value
  | .unary .negate (.const value) => some (arithmetic.neg value)
  | _ => none

/-- The antiderivative of a power: of the exponential function, or of the variable
with a constant exponent. -/
def power (base exponent : Expr α) : Integrating α (Antiderivative α) :=
  let integrand := base ^ exponent
  if arithmetic.isConst arithmetic.euler base && exponent.isVar name then
    found integrand
  else
    match base.isVar name, literal? arithmetic exponent with
    | true, some number =>
        if arithmetic.near number (arithmetic.ofInt (-1)) then
          found (.ln (.var name))
        else
          let raised : Expr α := .const (arithmetic.add number arithmetic.one)
          found ((.var name : Expr α) ^ raised / raised)
    | _, _ => left name integrand .exponent

/-- The number `c` of a denominator `x ^ 2 + c`, in either order. -/
def squarePlus? : Expr α → Option α
  | .binary .add first second =>
      let square := fun (expression : Expr α) => match expression with
        | .binary .power base exponent =>
            base.isVar name && arithmetic.isConst (arithmetic.ofInt 2) exponent
        | _ => false
      match square first, second, square second, first with
      | true, .const value, _, _ => some value
      | _, _, true, .const value => some value
      | _, _, _, _ => none
  | _ => none

/-- The antiderivative of a quotient: the reciprocal of an affine expression or of
the square of the variable plus a positive number. -/
def reciprocal (numerator denominator : Expr α) : Integrating α (Antiderivative α) := do
  let integrand := numerator / denominator
  if arithmetic.isConst arithmetic.one numerator then
    let affine ← Traced.ofExcept (denominator.affine? arithmetic name)
    match affine.filter fun line => arithmetic.apart line.slope arithmetic.zero with
    | some line => found (denominator.abs.ln / .const line.slope)
    | none =>
        match (squarePlus? arithmetic name denominator).filter arithmetic.isPositive with
        | some number =>
            let root : Expr α := .const (arithmetic.sqrt number)
            found (.atan (.var name / root) / root)
        | none => left name integrand .denominator
  else
    left name integrand .numerator

/-- The antiderivative of a product of the variable with an exponential, a sine or
a cosine of the variable. -/
def product (first second : Expr α) : Integrating α (Antiderivative α) :=
  let x : Expr α := .var name
  let unmatched := left name (first * second) .product
  if first.isVar name then
    match second with
    | .unary operator operand =>
        if operand.isVar name then
          match operator with
          | .exp => found ((x - arithmetic.number 1) * x.exp)
          | .sin => found (x.sin - x * x.cos)
          | .cos => found (x.cos + x * x.sin)
          | _ => unmatched
        else
          unmatched
    | .binary .power base exponent =>
        if arithmetic.isConst arithmetic.euler base && exponent.isVar name then
          found ((x - arithmetic.number 1) * second)
        else
          unmatched
    | _ => unmatched
  else
    unmatched

def quotient (numerator denominator : Expr α) : Integrating α (Antiderivative α) :=
  if arithmetic.isConst arithmetic.one numerator && denominator.isVar name then
    found (.ln (.var name))
  else
    reciprocal arithmetic name numerator denominator

end Antiderivative

namespace Expr

variable {α : Type}

/-- An antiderivative of an expression with respect to a variable, not simplified. -/
def antiderivative (arithmetic : Arithmetic α) (name : String) (expression : Expr α) :
    Antiderivative.Integrating α (Antiderivative α) :=
  if !expression.mentions name then
    Antiderivative.found (expression * var name)
  else if expression.isVar name then
    let two := arithmetic.number 2
    Antiderivative.found ((var name : Expr α) ^ two / two)
  else
    match expression with
    | binary .add left right => do
        let first ← left.antiderivative arithmetic name
        let second ← right.antiderivative arithmetic name
        return ⟨first.tree + second.tree, first.supported && second.supported⟩
    | binary .subtract left right => do
        let first ← left.antiderivative arithmetic name
        let second ← right.antiderivative arithmetic name
        return ⟨first.tree - second.tree, first.supported && second.supported⟩
    | binary .multiply left right =>
        if !left.mentions name then do
          let inner ← right.antiderivative arithmetic name
          return ⟨left * inner.tree, inner.supported⟩
        else if !right.mentions name then do
          let inner ← left.antiderivative arithmetic name
          return ⟨right * inner.tree, inner.supported⟩
        else
          Antiderivative.product arithmetic name left right
    | binary .divide left right => Antiderivative.quotient arithmetic name left right
    | binary .power left right => Antiderivative.power arithmetic name left right
    | unary .negate operand => do
        let inner ← operand.antiderivative arithmetic name
        return ⟨-inner.tree, inner.supported⟩
    | unary operator operand =>
        match operator.word? with
        | some function =>
            Antiderivative.elementary arithmetic name (unary operator operand) function operand
        | none => Antiderivative.left name (unary operator operand) .factorial
    | call function first [] =>
        Antiderivative.elementary arithmetic name (call function first []) function first
    | call function first (second :: others) =>
        Antiderivative.left name (call function first (second :: others)) .manyArguments
    | other => Antiderivative.left name other .noRule

/-- The simplified antiderivative of an expression, and whether all of it was
found before it was simplified.  The variable needs a name. -/
def integrate (arithmetic : Arithmetic α) (name : String) (expression : Expr α) :
    Traced (Notice α) (TransformFault α) (Antiderivative α) := do
  Traced.note (.integrating expression name)
  if name.isEmpty then
    .fail (.build .emptyVariable)
  else
    let result ← (expression.antiderivative arithmetic name).mapFault .evaluation
    let simplified ← (result.tree.simplify arithmetic).mapFault .evaluation
    return ⟨simplified, result.supported⟩

end Expr

end ExprCalculus
