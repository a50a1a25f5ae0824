import ExprCalculus.Binary64.Basic

/-!
# Decimals

A decimal is a whole coefficient times a power of ten.  This file rounds a
decimal to the nearest double and finds the decimal order of a ratio, the
exponent of the largest power of ten that it reaches.
-/

namespace ExprCalculus

/-- The nonnegative number `coefficient * 10 ^ exponent`. -/
structure Decimal where
  coefficient : Nat
  exponent : Int
deriving DecidableEq, Repr

namespace Decimal

/-- The number of decimal digits of a whole number; zero has one. -/
def digitCount (number : Nat) : Nat :=
  (Nat.toDigits 10 number).length

def toRatio (decimal : Decimal) : Nat × Nat :=
  (decimal.coefficient * Nat.pow 10 decimal.exponent.toNat, Nat.pow 10 (-decimal.exponent).toNat)

/-- The nearest double with the given sign: a zero for a decimal far below the
smallest double, and an infinity beyond the largest.  The two outer tests only
keep the powers of ten small. -/
def toFloat (negative : Bool) (decimal : Decimal) : Float :=
  let order := decimal.exponent + digitCount decimal.coefficient
  let limit := if negative then -Binary64.infinity else Binary64.infinity
  if decimal.coefficient = 0 || order < -400 then
    (if negative then -0.0 else 0.0)
  else if 400 < order then
    limit
  else
    let (numerator, denominator) := decimal.toRatio
    (Binary64.ofRatio? negative numerator denominator).getD limit

/-- The same number without zeros at the end of its coefficient. -/
def normalize (decimal : Decimal) : Decimal :=
  if decimal.coefficient ≠ 0 ∧ decimal.coefficient % 10 = 0 then
    normalize ⟨decimal.coefficient / 10, decimal.exponent + 1⟩
  else
    decimal
termination_by decimal.coefficient
decreasing_by omega

/-- The exponent of the largest power of ten that a positive ratio reaches,
from a guess by its binary exponent that is at most one too small. -/
def order (numerator denominator : Nat) : Int :=
  let guess := (Binary64.binaryExponent numerator denominator * 30103).fdiv 100000
  let above := guess + 1
  if denominator * Nat.pow 10 above.toNat ≤ numerator * Nat.pow 10 (-above).toNat then
    above
  else if denominator * Nat.pow 10 guess.toNat ≤ numerator * Nat.pow 10 (-guess).toNat then
    guess
  else
    guess - 1

end Decimal

end ExprCalculus
