/-!
# Rational approximation

The rational number nearest to a given one among those with a bounded denominator
is found along its continued fraction: the convergents are followed while their
denominators stay within the bound, and the last of them competes with the
furthest intermediate fraction.
-/

namespace ExprCalculus

namespace Approximation

/-- Two successive convergents, the latest second, as numerators and
denominators. -/
structure Convergents where
  earlierNumerator : Int
  earlierDenominator : Int
  numerator : Int
  denominator : Int

def Convergents.start : Convergents :=
  ⟨0, 1, 1, 0⟩

def Convergents.advance (convergents : Convergents) (quotient : Int) : Convergents where
  earlierNumerator := convergents.numerator
  earlierDenominator := convergents.denominator
  numerator := convergents.earlierNumerator + quotient * convergents.numerator
  denominator := convergents.earlierDenominator + quotient * convergents.denominator

/-- Follows the continued fraction of `numerator / denominator` while the
denominators of the convergents stay within the bound. -/
def follow (bound : Int) (convergents : Convergents) (numerator : Int)
    (denominator : Nat) : Convergents :=
  if _ : denominator = 0 then
    convergents
  else
    let next := convergents.advance (numerator / denominator)
    if bound < next.denominator then
      convergents
    else
      follow bound next denominator (numerator % denominator).toNat
termination_by denominator
decreasing_by
  have := Int.emod_lt_of_pos numerator (b := denominator) (by omega)
  have := Int.emod_nonneg numerator (b := denominator) (by omega)
  omega

def magnitude (number : Rat) : Rat :=
  if number < 0 then -number else number

/-- The rational number nearest to a given one among those with a denominator of
at most `bound`; of two that are equally near, the one with the smaller
denominator. -/
def nearest (bound : Nat) (number : Rat) : Rat :=
  if number.den ≤ bound then
    number
  else
    let last := follow bound .start number.num number.den
    let steps := (bound - last.earlierDenominator) / last.denominator
    let between := mkRat (last.earlierNumerator + steps * last.numerator)
      (last.earlierDenominator + steps * last.denominator).toNat
    let convergent := mkRat last.numerator last.denominator.toNat
    if magnitude (convergent - number) ≤ magnitude (between - number) then
      convergent
    else
      between

end Approximation

end ExprCalculus
