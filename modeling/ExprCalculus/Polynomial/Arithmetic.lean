import ExprCalculus.Calculus.Fault
import ExprCalculus.Evaluation.Doubles
import ExprCalculus.Polynomial.Approximation

/-!
# Arithmetics for factoring

Factoring needs more of an arithmetic than evaluating does: which numbers count as
whole or as simple fractions, which values count as roots, and where a division, a
root or a conversion fails.
-/

namespace ExprCalculus

/-- An arithmetic in which polynomials can be factored.  It tells which whole number or simple
fraction a number counts as, which whole number the square root of its magnitude counts as,
and which positive whole number it is; and whether the value of a polynomial with given
coefficients counts as zero.  There is no quotient by zero and no root of a negative number. -/
structure FactoringArithmetic (α : Type) extends Arithmetic α where
  ofRat : Rat → Except NumericFault α
  quotient : α → α → Except NumericFault α
  root : α → Except NumericFault α
  power : α → Nat → Except NumericFault α
  whole? : α → Except NumericFault (Option Int)
  wholeRoot? : α → Except NumericFault (Option Int)
  exponent? : α → Except NumericFault (Option Nat)
  fraction? : α → Except NumericFault (Option Rat)
  clearlyNegative : α → Bool
  opposite : α → α → Bool
  negligible : List α → α → Bool

namespace FactoringArithmetic

variable {α : Type} (arithmetic : FactoringArithmetic α)

/-- A number replaced by the whole number that it counts as, if any. -/
def snap (value : α) : Except NumericFault α := do
  match ← arithmetic.whole? value with
  | some number => return arithmetic.ofInt number
  | none => return value

end FactoringArithmetic

namespace Doubles

def exactly (value : Float) : Except NumericFault Rat :=
  match Binary64.toRat? value with
  | some number => .ok number
  | none => .error (if value.isNaN then .undefinedNumber else .outOfRange)

def nearestTo (number : Rat) : Except NumericFault Float :=
  match Binary64.ofRat? number with
  | some value => .ok value
  | none => .error .outOfRange

/-- The whole number nearest to a double and its distance from the double. -/
def wholeNear (value : Float) : Except NumericFault (Int × Float) := do
  let number := Binary64.roundHalfEven (← exactly value)
  return (number, (value - Binary64.ofInt number).abs)

/-- The whole number within a billionth of a double, if there is one. -/
def whole? (value : Float) : Except NumericFault (Option Int) := do
  let (number, distance) ← wholeNear value
  return if distance < 1e-9 then some number else none

def wholeRoot? (value : Float) : Except NumericFault (Option Int) := do
  let (number, distance) ← wholeNear (Float.sqrt value.abs)
  return if 1e-9 < distance then none else some number

/-- The positive whole number that a double is, if it is one. -/
def exponent? (value : Float) : Except NumericFault (Option Nat) := do
  if 1.0 <= value then
    let number ← exactly value
    return if number.den = 1 then some number.num.toNat else none
  else
    return none

/-- The fraction with a denominator of at most a hundred that is nearest to a
double, if it is nearer than a hundred-millionth. -/
def fraction? (value : Float) : Except NumericFault (Option Rat) := do
  let fraction := Approximation.nearest 100 (← exactly value)
  let rounded ← nearestTo fraction
  return if (rounded - value).abs < 1e-8 then some fraction else none

/-- Whether a value is less than a billionth of the largest coefficient, or of one
if that is larger.  An undefined value is not larger than anything. -/
def negligible (coefficients : List Float) (value : Float) : Bool :=
  let larger := fun (first second : Float) => if first < second then second else first
  let largest := match coefficients.map Float.abs with
    | [] => 0.0
    | first :: rest => rest.foldl larger first
  !decide (1e-9 * larger 1.0 largest <= value.abs)

def factoring (settings : Settings) : FactoringArithmetic Float where
  toArithmetic := arithmetic settings
  ofRat := nearestTo
  quotient dividend divisor :=
    if divisor == 0.0 then .error .divisionByZero else .ok (dividend / divisor)
  root value := if value < 0.0 then .error .negativeRoot else .ok (Float.sqrt value)
  power base exponent :=
    let value := Float.pow base (Binary64.ofInt exponent)
    if value.isInf && base.isFinite then .error .outOfRange else .ok value
  whole? := whole?
  wholeRoot? := wholeRoot?
  exponent? := exponent?
  fraction? := fraction?
  clearlyNegative value := value < -settings.epsilon
  opposite first second := !decide (0.0 <= first * second)
  negligible := negligible

end Doubles

end ExprCalculus
