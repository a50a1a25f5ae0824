/-!
# Doubles as exact rational numbers

A finite double is a whole multiple of a power of two, so it is a rational
number.  This file reads that number off the bits of a double and goes back
from an exact ratio to the nearest double, where a tie goes to the even
neighbour and a ratio beyond the largest double has no image.
-/

namespace ExprCalculus

namespace Binary64

def infinity : Float :=
  Float.ofBits 0x7FF0000000000000

def undefined : Float :=
  Float.ofBits 0x7FF8000000000000

def largest : Float :=
  Float.ofBits 0x7FEFFFFFFFFFFFFF

def largestNumber : Nat :=
  (Nat.pow 2 53 - 1) * Nat.pow 2 971

/-- Whether the sign bit is set, which tells the two zeros apart. -/
def signBit (value : Float) : Bool :=
  Nat.pow 2 63 ≤ value.toBits.toNat

/-- The magnitude of a finite double, as the whole coefficient and the
exponent of the power of two that it multiplies. -/
def magnitude? (value : Float) : Option (Nat × Int) :=
  let bits := value.toBits.toNat
  let exponent : Nat := bits / Nat.pow 2 52 % Nat.pow 2 11
  let fraction := bits % Nat.pow 2 52
  if exponent = 2047 then
    none
  else if exponent = 0 then
    some (fraction, -1074)
  else
    some (fraction + Nat.pow 2 52, (exponent : Int) - 1075)

/-- The ratio `coefficient * 2 ^ exponent`, as numerator and denominator. -/
def scaledByTwo (coefficient : Nat) (exponent : Int) : Nat × Nat :=
  (coefficient * Nat.pow 2 exponent.toNat, Nat.pow 2 (-exponent).toNat)

/-- The exact value of a finite double; infinities and undefined results have
none. -/
def toRat? (value : Float) : Option Rat :=
  (magnitude? value).map fun (coefficient, exponent) =>
    let (numerator, denominator) := scaledByTwo coefficient exponent
    if signBit value then
      mkRat (-(numerator : Int)) denominator
    else
      mkRat numerator denominator

/-- The whole number nearest to a ratio, the even one of two that are equally
near. -/
def roundRatio (numerator denominator : Nat) : Nat :=
  let quotient := numerator / denominator
  let remainder := numerator % denominator
  if 2 * remainder < denominator then
    quotient
  else if denominator < 2 * remainder then
    quotient + 1
  else
    quotient + quotient % 2

/-- The exponent of the largest power of two that a positive ratio reaches. -/
def binaryExponent (numerator denominator : Nat) : Int :=
  let guess := (Nat.log2 numerator : Int) - Nat.log2 denominator
  if denominator * Nat.pow 2 guess.toNat ≤ numerator * Nat.pow 2 (-guess).toNat then
    guess
  else
    guess - 1

/-- The bits of the nonnegative double nearest to a ratio, or `none` when the
ratio rounds past the largest double.  Consecutive doubles have consecutive
bits, so a coefficient that rounds up to the next power of two needs no care. -/
def nearestBits? (numerator denominator : Nat) : Option Nat :=
  if numerator = 0 then
    some 0
  else
    let unit := max (binaryExponent numerator denominator - 52) (-1074)
    let coefficient :=
      roundRatio (numerator * Nat.pow 2 (-unit).toNat) (denominator * Nat.pow 2 unit.toNat)
    let bits := (unit + 1074).toNat * Nat.pow 2 52 + coefficient
    if bits < 2047 * Nat.pow 2 52 then some bits else none

/-- The double with the given sign nearest to a ratio, or `none` when the
ratio rounds past the largest double. -/
def ofRatio? (negative : Bool) (numerator denominator : Nat) : Option Float :=
  (nearestBits? numerator denominator).map fun bits =>
    Float.ofBits (UInt64.ofNat (if negative then bits + Nat.pow 2 63 else bits))

def ofRat? (number : Rat) : Option Float :=
  ofRatio? (number < 0) number.num.natAbs number.den

def ofInt? (number : Int) : Option Float :=
  ofRatio? (number < 0) number.natAbs 1

/-- The double nearest to a whole number, an infinity beyond the largest
double. -/
def ofInt (number : Int) : Float :=
  (ofInt? number).getD (if number < 0 then -infinity else infinity)

end Binary64

end ExprCalculus
