import ExprCalculus.Binary64.Basic

/-!
# Operations on doubles with exact results

Rounding a double to a whole number and taking the remainder of a division
lose nothing, so they are defined here through the exact rational value of
their operands.  The length of a vector is rounded once, from its exact square.
-/

namespace ExprCalculus

namespace Binary64

def roundHalfEven (number : Rat) : Int :=
  let rounded : Int := roundRatio number.num.natAbs number.den
  if number < 0 then -rounded else rounded

def truncate (number : Rat) : Int :=
  number.num.tdiv number.den

def nearestInt? (value : Float) : Option Int :=
  (toRat? value).map roundHalfEven

/-- The double of a rational number, where a zero takes the given sign. -/
def signedZeroOr (negative : Bool) (number : Rat) : Float :=
  if number = 0 then
    (if negative then -0.0 else 0.0)
  else
    (ofRat? number).getD undefined

/-- Rounds a finite double to a whole number; a zero keeps the sign of the
double, and doubles that are not finite stay as they are. -/
def roundedBy (round : Rat → Int) (value : Float) : Float :=
  match toRat? value with
  | none => value
  | some number => signedZeroOr (signBit value) (round number : Int)

def floor : Float → Float :=
  roundedBy Rat.floor

def ceiling : Float → Float :=
  roundedBy Rat.ceil

/-- The nearest whole double, the even one of two that are equally near. -/
def nearestWhole : Float → Float :=
  roundedBy roundHalfEven

/-- The remainder of the division that rounds its quotient toward zero; it has
the sign of the dividend and is undefined for a zero divisor. -/
def remainder (dividend divisor : Float) : Float :=
  match toRat? dividend, toRat? divisor with
  | some first, some second =>
      if second = 0 then
        undefined
      else
        signedZeroOr (signBit dividend)
          (first - second * (truncate (first / second) : Int))
  | some _, none => if divisor.isNaN then undefined else dividend
  | none, _ => undefined

/-- The nearest double to the square root of a nonnegative rational number.
The whole root of the number scaled up by `4 ^ 1140` has more digits than a
double holds, and the last digit added records whether the root is exact. -/
def squareRootOf (number : Rat) : Float :=
  let scaled := number.num.natAbs * Nat.pow 4 1140 / number.den
  let root := Nat.sqrt scaled
  let inexact := if root * root * number.den = number.num.natAbs * Nat.pow 4 1140 then 0 else 1
  (ofRatio? false (2 * root + inexact) (Nat.pow 2 1141)).getD infinity

def hypotenuse (first second : Float) : Float :=
  match toRat? first, toRat? second with
  | some x, some y => squareRootOf (x * x + y * y)
  | _, _ =>
      if first.isInf || second.isInf then infinity else undefined

/-- The sign of a double as a double; both zeros give the positive zero. -/
def sign (value : Float) : Float :=
  if 0.0 < value then 1.0
  else if value < 0.0 then -1.0
  else if value == 0.0 then 0.0
  else value

/-- The smaller of two doubles, the second of two equal ones; undefined when
either is. -/
def minimum (first second : Float) : Float :=
  if first < second || first.isNaN then first else second

def maximum (first second : Float) : Float :=
  if second < first || first.isNaN then first else second

end Binary64

end ExprCalculus
