import ExprCalculus.Evaluation.Arithmetic
import ExprCalculus.Evaluation.Combinatorics

/-!
# The arithmetic of doubles

Operators and named functions on doubles.  A division by zero, an overflow or an
argument outside the domain gives an infinity or an undefined result; only the
combinatorial functions refuse arguments.

A single power with one of a few simple exponents is computed without the general
power function; the entries of grids are always raised by the general one.
-/

namespace ExprCalculus

namespace Doubles

/-- A power of a double.  The exponents -1, 0, 1/2, 1 and 2 stand for a reciprocal,
for one, for a square root, for the base and for a square.  The square root differs
from the general power at negative zero, which it keeps, and at negative infinity,
which has none. -/
def power (base exponent : Float) : Float :=
  if exponent == -1.0 then 1.0 / base
  else if exponent == 0.0 then 1.0
  else if exponent == 0.5 then Float.sqrt base
  else if exponent == 1.0 then base
  else if exponent == 2.0 then base * base
  else Float.pow base exponent

def binary : BinaryOperator → Float → Float → Float
  | .add, left, right => left + right
  | .subtract, left, right => left - right
  | .multiply, left, right => left * right
  | .divide, left, right => left / right
  | .power, left, right => power left right
  | .modulo, left, right => Binary64.remainder left right
  | .logBase, left, right => Float.log left / Float.log right

/-- The value of an operator between corresponding entries of two grids, where
every power is a general one. -/
def entrywise (operator : BinaryOperator) (left right : Float) : Float :=
  if operator = .power then Float.pow left right else binary operator left right

/-- The value of an operator on one double, except the factorial. -/
def elementary : UnaryOperator → Float → Float
  | .negate, operand => -operand
  | .sin, operand => Float.sin operand
  | .cos, operand => Float.cos operand
  | .tan, operand => Float.tan operand
  | .asin, operand => Float.asin operand
  | .acos, operand => Float.acos operand
  | .atan, operand => Float.atan operand
  | .sinh, operand => Float.sinh operand
  | .cosh, operand => Float.cosh operand
  | .tanh, operand => Float.tanh operand
  | .exp, operand => Float.exp operand
  | .ln, operand => Float.log operand
  | .log10, operand => Float.log10 operand
  | .sqrt, operand => Float.sqrt operand
  | .abs, operand => Float.abs operand
  | .floor, operand => Binary64.floor operand
  | .ceiling, operand => Binary64.ceiling operand
  | .round, operand => Binary64.nearestWhole operand
  | .sign, operand => Binary64.sign operand
  | .factorial, _ => Binary64.undefined

def unary (settings : Settings) (operator : UnaryOperator) (operand : Float) :
    Except (EvaluationFault Float) Float :=
  if operator = .factorial then
    Combinatorics.factorial .standard settings operand
  else
    .ok (elementary operator operand)

def named? (settings : Settings) (name : String) : Option (NamedFunction Float) :=
  let total := fun (function : Float → Float) =>
    some (NamedFunction.one fun argument => .ok (function argument))
  let totalPair := fun (function : Float → Float → Float) =>
    some (NamedFunction.two fun first second => .ok (function first second))
  match name with
  | "sin" => total Float.sin
  | "cos" => total Float.cos
  | "tan" => total Float.tan
  | "asin" => total Float.asin
  | "acos" => total Float.acos
  | "atan" => total Float.atan
  | "sec" => total fun argument => 1.0 / Float.cos argument
  | "csc" => total fun argument => 1.0 / Float.sin argument
  | "cot" => total fun argument => 1.0 / Float.tan argument
  | "sinh" => total Float.sinh
  | "cosh" => total Float.cosh
  | "tanh" => total Float.tanh
  | "exp" => total Float.exp
  | "ln" => total Float.log
  | "log" => total Float.log
  | "log10" => total Float.log10
  | "log2" => total Float.log2
  | "sqrt" => total Float.sqrt
  | "abs" => total Float.abs
  | "sign" => total Binary64.sign
  | "floor" => total Binary64.floor
  | "ceil" => total Binary64.ceiling
  | "ceiling" => total Binary64.ceiling
  | "round" => total Binary64.nearestWhole
  | "min" => totalPair Binary64.minimum
  | "max" => totalPair Binary64.maximum
  | "atan2" => totalPair Float.atan2
  | "hypot" => totalPair Binary64.hypotenuse
  | "mod" => totalPair Binary64.remainder
  | "pow" => totalPair power
  | "factorial" => some (.one (Combinatorics.factorial .standard settings))
  | "gcd" => some (.two (Combinatorics.greatestCommonDivisor settings))
  | "lcm" => some (.two (Combinatorics.leastCommonMultiple settings))
  | "binomial" => some (.two (Combinatorics.binomial .standard settings))
  | "ncr" => some (.two (Combinatorics.binomial .standard settings))
  | "choose" => some (.two (Combinatorics.binomial .standard settings))
  | "permutation" => some (.two (Combinatorics.permutation .standard settings))
  | "perm" => some (.two (Combinatorics.permutation .standard settings))
  | "npr" => some (.two (Combinatorics.permutation .standard settings))
  | _ => none

def arithmetic (settings : Settings) : Arithmetic Float where
  ofInt := Binary64.ofInt
  euler := eulerConstant
  neg := Float.neg
  sqrt := Float.sqrt
  binary := binary
  unary := unary settings
  named? := named? settings
  near := settings.near
  apart := settings.apart
  same := settings.same
  isFinite := Float.isFinite
  isZero value := value == 0.0
  isNegative value := value < 0.0
  isPositive value := 0.0 < value

def gridArithmetic (settings : Settings) : Arithmetic Float :=
  { arithmetic settings with binary := entrywise }

def binaryByNumber (number : Int) (left right : Float) : Except BuildError Float :=
  match BinaryOperator.ofNumber? number with
  | some operator => .ok (binary operator left right)
  | none => .error (.unknownBinary (toString number))

def unaryByNumber (settings : Settings) (number : Int) (operand : Float) :
    Except BuildError (Except (EvaluationFault Float) Float) :=
  match UnaryOperator.ofNumber? number with
  | some operator => .ok (unary settings operator operand)
  | none => .error (.unknownUnary (toString number))

def entrywiseOrUndefined (number : Int) (left right : Float) : Float :=
  match BinaryOperator.ofNumber? number with
  | some operator => entrywise operator left right
  | none => Binary64.undefined

def elementaryOrUndefined (number : Int) (operand : Float) : Float :=
  match UnaryOperator.ofNumber? number with
  | some operator => elementary operator operand
  | none => Binary64.undefined

end Doubles

end ExprCalculus
