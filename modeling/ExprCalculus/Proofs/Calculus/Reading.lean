import ExprCalculus.Calculus.Affine
import Mathlib.Algebra.Order.Field.Basic
import Mathlib.RingTheory.Derivation.Basic

/-!
# Reading expressions in a differential field

The constants of exact arithmetic are the elements of an ordered field and one
undefined result.  An expression is read as an element of a differential field over
the constants: the arithmetic operations are those of the field, and the other
operators, the functions and the markers of unknown integrals are any functions on it
that satisfy the textbook equations.  A quotient by zero has no reading.
-/

namespace ExprCalculus

/-- A partial function of one or two constants. -/
inductive PartialFunction (C : Type) where
  | one (apply : C → Option C)
  | two (apply : C → C → Option C)

/-- A partial function on results; it is undefined where an argument is. -/
def PartialFunction.lift {C : Type} : PartialFunction C → NamedFunction (Option C)
  | one apply => .one fun argument => .ok (argument.bind apply)
  | two apply => .two fun first second => .ok (first.bind fun left => second.bind (apply left))

/-- The operators and functions on constants that exact arithmetic leaves open. -/
structure Constants (C : Type) where
  unary : UnaryOperator → C → Option C
  binary : BinaryOperator → C → C → Option C
  named? : String → Option (PartialFunction C)
  sqrt : C → C
  euler : C

section Arithmetic

variable {C : Type} [Field C] [LinearOrder C]

namespace Constants

variable (constants : Constants C)

def unaryValue (operator : UnaryOperator) (operand : C) : Option C :=
  if operator = .negate then some (-operand) else constants.unary operator operand

def binaryValue (operator : BinaryOperator) (left right : C) : Option C :=
  match operator with
  | .add => some (left + right)
  | .subtract => some (left - right)
  | .multiply => some (left * right)
  | .divide => if right = 0 then none else some (left / right)
  | other => constants.binary other left right

/-- Exact arithmetic on constants, where two constants are near if they are equal. -/
def arithmetic : Arithmetic (Option C) where
  ofInt number := some number
  euler := some constants.euler
  neg := Option.map (- ·)
  sqrt := Option.map constants.sqrt
  binary operator first second :=
    first.bind fun left => second.bind (constants.binaryValue operator left)
  unary operator argument := .ok (argument.bind (constants.unaryValue operator))
  named? name := (constants.named? name).map PartialFunction.lift
  near first second := first.isSome && first = second
  apart first second := first.isSome && second.isSome && first ≠ second
  same first second := first = second
  isFinite := Option.isSome
  isZero value := value = some 0
  isNegative value := value.any (· < 0)
  isPositive value := value.any (0 < ·)

end Constants

end Arithmetic

/-- How the parts of expressions are read in a differential field. -/
structure Reading (C K : Type) [Field C] [Field K] [Algebra C K] where
  derivation : Derivation C K K
  named : String → K
  unary : UnaryOperator → K → K
  binary : BinaryOperator → K → K → K
  call : String → List K → K
  marker : Expr (Option C) → String → K

namespace Reading

variable {C K : Type} [Field C] [Field K] [Algebra C K]

section Values

variable (reading : Reading C K)

def unaryValue (operator : UnaryOperator) (operand : K) : K :=
  if operator = .negate then -operand else reading.unary operator operand

open Classical in
noncomputable def binaryValue (operator : BinaryOperator) (left right : K) : Option K :=
  match operator with
  | .add => some (left + right)
  | .subtract => some (left - right)
  | .multiply => some (left * right)
  | .divide => if right = 0 then none else some (left / right)
  | other => some (reading.binary other left right)

mutual

noncomputable def value : Expr (Option C) → Option K
  | .const constant => constant.map (algebraMap C K)
  | .var name => some (reading.named name)
  | .unary operator operand => (value operand).map (reading.unaryValue operator)
  | .binary operator left right =>
      (value left).bind fun first => (value right).bind (reading.binaryValue operator first)
  | .call name first others =>
      (value first).bind fun head => (values others).map fun tail =>
        reading.call name (head :: tail)
  | .integral integrand bound => some (reading.marker integrand bound)

noncomputable def values : List (Expr (Option C)) → Option (List K)
  | [] => some []
  | expression :: rest =>
      (value expression).bind fun head => (values rest).map (head :: ·)

end

/-- An element has a constant other than zero as its derivative. -/
def Moves (element : K) (slope : C) : Prop :=
  slope ≠ 0 ∧ reading.derivation element = algebraMap C K slope

end Values

/-- A reading agrees with the constants and satisfies the textbook equations, where the
equations of the elementary functions are needed at elements with a constant slope
only. -/
structure IsTextbook [LinearOrder C] (constants : Constants C) (reading : Reading C K)
    (name : String) : Prop where
  unary_const {operator : UnaryOperator} {operand result : C} :
    constants.unary operator operand = some result →
      reading.unary operator (algebraMap C K operand) = algebraMap C K result
  binary_const {operator : BinaryOperator} {left right result : C} :
    constants.binary operator left right = some result →
      reading.binary operator (algebraMap C K left) (algebraMap C K right) = algebraMap C K result
  call_one {function : String} {apply : C → Option C} {argument result : C} :
    constants.named? (Text.toLower function) = some (.one apply) →
      apply argument = some result →
      reading.call function [algebraMap C K argument] = algebraMap C K result
  call_two {function : String} {apply : C → C → Option C} {first second result : C} :
    constants.named? (Text.toLower function) = some (.two apply) →
      apply first second = some result →
      reading.call function [algebraMap C K first, algebraMap C K second] = algebraMap C K result
  sqrt_sq {number : C} : 0 < number → constants.sqrt number ^ 2 = number
  euler_ne_zero : constants.euler ≠ 0
  ln_euler : reading.unary .ln (algebraMap C K constants.euler) = 1
  ln_ten_ne_zero : reading.unary .ln 10 ≠ 0
  derivation_named : reading.derivation (reading.named name) = 1
  power_whole {base : K} {exponent : ℤ} : base ≠ 0 ∨ 0 ≤ exponent →
    reading.binary .power base exponent = base ^ exponent
  sign_div_abs {element : K} : element ≠ 0 →
    reading.unary .sign element / reading.unary .abs element = 1 / element
  derivation_sin {u : K} {slope : C} : reading.Moves u slope →
    reading.derivation (reading.unary .sin u) = reading.unary .cos u * algebraMap C K slope
  derivation_cos {u : K} {slope : C} : reading.Moves u slope →
    reading.derivation (reading.unary .cos u) = -(reading.unary .sin u * algebraMap C K slope)
  derivation_cosh {u : K} {slope : C} : reading.Moves u slope →
    reading.derivation (reading.unary .cosh u) = reading.unary .sinh u * algebraMap C K slope
  sin_sq_add_cos_sq {u : K} {slope : C} : reading.Moves u slope →
    reading.unary .sin u ^ 2 + reading.unary .cos u ^ 2 = 1
  cosh_sq_sub_sinh_sq {u : K} {slope : C} : reading.Moves u slope →
    reading.unary .cosh u ^ 2 - reading.unary .sinh u ^ 2 = 1
  tan_eq {u : K} {slope : C} : reading.Moves u slope →
    reading.unary .tan u = reading.unary .sin u / reading.unary .cos u
  tanh_eq {u : K} {slope : C} : reading.Moves u slope →
    reading.unary .tanh u = reading.unary .sinh u / reading.unary .cosh u
  log10_eq {u : K} {slope : C} : reading.Moves u slope →
    reading.unary .log10 u = reading.unary .ln u / reading.unary .ln 10
  sqrt_eq {u : K} {slope : C} : reading.Moves u slope →
    reading.unary .sqrt u = reading.binary .power u (1 / 2)
  call_sec {u : K} {slope : C} : reading.Moves u slope →
    reading.call "sec" [u] = 1 / reading.unary .cos u
  call_csc {u : K} {slope : C} : reading.Moves u slope →
    reading.call "csc" [u] = 1 / reading.unary .sin u
  call_cot {u : K} {slope : C} : reading.Moves u slope →
    reading.call "cot" [u] = reading.unary .cos u / reading.unary .sin u
  call_log {u : K} {slope : C} : reading.Moves u slope →
    reading.call "log" [u] = reading.unary .ln u
  call_word {operator : UnaryOperator} {word : String} {u : K} {slope : C} :
    operator.word? = some word → reading.Moves u slope →
      reading.call word [u] = reading.unary operator u

end Reading

end ExprCalculus
