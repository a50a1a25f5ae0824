import ExprCalculus.Calculus.Builders
import ExprCalculus.Calculus.Fault
import ExprCalculus.Simplification.Basic

/-!
# Derivatives

Every form of expression has one differentiation rule; elementary functions,
written as operators or as calls, share a table of rules.  `Expr.derivative` gives
the derivative as the rules build it, and `Expr.differentiate` its simplified form.
An expression that does not mention the variable has derivative zero, whatever
it is made of.
-/

namespace ExprCalculus

namespace Derivative

variable {α : Type} (arithmetic : Arithmetic α)

def rule? (name : String) : Option (Expr α → Expr α → Expr α) :=
  let one := arithmetic.number 1
  let two := arithmetic.number 2
  match name with
  | "sin" => some fun u du => u.cos * du
  | "cos" => some fun u du => -(u.sin * du)
  | "tan" => some fun u du => (one + u.tan ^ two) * du
  | "asin" => some fun u du => du / (one - u ^ two).sqrt
  | "acos" => some fun u du => -(du / (one - u ^ two).sqrt)
  | "atan" => some fun u du => du / (one + u ^ two)
  | "sec" => some fun u du => u.sec * u.tan * du
  | "csc" => some fun u du => -(u.csc * u.cot * du)
  | "cot" => some fun u du => -(u.csc ^ two * du)
  | "sinh" => some fun u du => u.cosh * du
  | "cosh" => some fun u du => u.sinh * du
  | "tanh" => some fun u du => (one - u.tanh ^ two) * du
  | "exp" => some fun u du => u.exp * du
  | "ln" => some fun u du => du / u
  | "log" => some fun u du => du / u
  | "log10" => some fun u du => du / (u * (arithmetic.number 10).ln)
  | "log2" => some fun u du => du / (u * two.ln)
  | "sqrt" => some fun u du => du / (two * u.sqrt)
  | "abs" => some fun u du => u.sign * du
  | _ => none

def unary (operator : UnaryOperator) (operand derivative : Expr α) :
    Except (Refusal α) (Expr α) :=
  match operator with
  | .negate => .ok (-derivative)
  | _ =>
      match operator.word?.bind (rule? arithmetic) with
      | some rule => .ok (rule operand derivative)
      | none => .error (.operator (.unary operator operand))

def logarithm (name : String) (operand derivative : Expr α) : Expr α :=
  if operand.mentions name then derivative / operand else arithmetic.number 0

def quotient (left leftDerivative right rightDerivative : Expr α) : Expr α :=
  (leftDerivative * right - left * rightDerivative) / right ^ arithmetic.number 2

end Derivative

namespace Expr

variable {α : Type}

/-- The derivative of an expression with respect to a variable, not simplified. -/
def derivative (arithmetic : Arithmetic α) (name : String) :
    Expr α → Except (Refusal α) (Expr α)
  | const _ => .ok (arithmetic.number 0)
  | var other => .ok (arithmetic.number (if other = name then 1 else 0))
  | unary operator operand =>
      if operand.mentions name then do
        let inner ← operand.derivative arithmetic name
        Derivative.unary arithmetic operator operand inner
      else
        .ok (arithmetic.number 0)
  | binary operator left right =>
      if left.mentions name || right.mentions name then
        match operator with
        | .add => do
            let first ← left.derivative arithmetic name
            let second ← right.derivative arithmetic name
            return first + second
        | .subtract => do
            let first ← left.derivative arithmetic name
            let second ← right.derivative arithmetic name
            return first - second
        | .multiply => do
            let first ← left.derivative arithmetic name
            let second ← right.derivative arithmetic name
            return first * right + left * second
        | .divide => do
            let first ← left.derivative arithmetic name
            let second ← right.derivative arithmetic name
            return Derivative.quotient arithmetic left first right second
        | .power =>
            if right.mentions name then do
              let second ← right.derivative arithmetic name
              let first ← left.derivative arithmetic name
              return left ^ right * (second * left.ln + right * (first / left))
            else do
              let first ← left.derivative arithmetic name
              return right * left ^ (right - arithmetic.number 1) * first
        | .logBase => do
            let first ← left.derivative arithmetic name
            let second ← right.derivative arithmetic name
            return Derivative.quotient arithmetic
              left.ln (Derivative.logarithm arithmetic name left first)
              right.ln (Derivative.logarithm arithmetic name right second)
        | .modulo => .error (.operator (binary .modulo left right))
      else
        .ok (arithmetic.number 0)
  | call function first others =>
      if first.mentions name || mentionsAny name others then
        match others with
        | [] =>
            match Derivative.rule? arithmetic function with
            | some rule => do
                let inner ← first.derivative arithmetic name
                return rule first inner
            | none => .error (.function function)
        | _ :: _ => .error (.manyArguments (others.length + 1) function)
      else
        .ok (arithmetic.number 0)
  | integral integrand bound =>
      if bound = name then
        .ok integrand
      else if integrand.mentions name then do
        let inner ← integrand.derivative arithmetic name
        return integral inner bound
      else
        .ok (arithmetic.number 0)

def differentiate (arithmetic : Arithmetic α) (name : String) (expression : Expr α) :
    Traced (Notice α) (TransformFault α) (Expr α) := do
  Traced.note (.differentiating expression name)
  match expression.derivative arithmetic name with
  | .ok derivative => (derivative.simplify arithmetic).mapFault .evaluation
  | .error refusal =>
      Traced.note (.refused name refusal)
      .fail (.refused refusal)

end Expr

end ExprCalculus
