import ExprCalculus.Decimal.Basic

/-!
# Shortest decimals of doubles

A double is written with the fewest digits that read back as the same double,
and among decimals of that length with the one nearest to it, a tie going to
the even digit.  The reals that round to a double form an interval around it,
whose ends belong to it exactly when the coefficient of the double is even.
If a decimal with a given number of digits lies in the interval, so does one of
the two neighbours of the double on the grid of decimals with that many digits;
hence two candidates for each number of digits are enough.

A second rounding cuts a double to a fixed number of significant digits.
-/

namespace ExprCalculus

namespace Decimal

/-- The reals that round to a double, as numerators over a common denominator:
the lower end, the double itself and the upper end. -/
structure RoundingInterval where
  lower : Nat
  value : Nat
  upper : Nat
  denominator : Nat
  closed : Bool

/-- The interval of a positive double.  The gap below a power of two is half
the gap above it, except at the smallest exponent. -/
def RoundingInterval.ofMagnitude (coefficient : Nat) (exponent : Int) :
    RoundingInterval :=
  let (scale, denominator) := Binary64.scaledByTwo 1 (exponent - 2)
  let below := if coefficient = Nat.pow 2 52 ∧ exponent ≠ -1074 then 1 else 2
  { lower := (4 * coefficient - below) * scale
    value := 4 * coefficient * scale
    upper := (4 * coefficient + 2) * scale
    denominator
    closed := coefficient % 2 = 0 }

def RoundingInterval.holds (interval : RoundingInterval) (decimal : Decimal) :
    Bool :=
  let (numerator, denominator) := decimal.toRatio
  let scaled := numerator * interval.denominator
  let lower := interval.lower * denominator
  let upper := interval.upper * denominator
  if interval.closed then
    lower ≤ scaled && scaled ≤ upper
  else
    lower < scaled && scaled < upper

/-- The better of the two neighbours of the double on the grid of the multiples
of `10 ^ exponent`, if one of them reads back as the double. -/
def RoundingInterval.neighbour? (interval : RoundingInterval) (exponent : Int) :
    Option Decimal :=
  let numerator := interval.value * Nat.pow 10 (-exponent).toNat
  let denominator := interval.denominator * Nat.pow 10 exponent.toNat
  let below : Decimal := ⟨numerator / denominator, exponent⟩
  let above : Decimal := ⟨numerator / denominator + 1, exponent⟩
  let nearest := Binary64.roundRatio numerator denominator
  match interval.holds below, interval.holds above with
  | true, true => some ⟨nearest, exponent⟩
  | true, false => some below
  | false, true => some above
  | false, false => none

/-- The shortest decimal that reads back as a double, for its magnitude.  A
double needs at most seventeen digits. -/
def shortest (value : Float) : Decimal :=
  match Binary64.magnitude? value with
  | none => ⟨0, 0⟩
  | some (coefficient, exponent) =>
      if coefficient = 0 then
        ⟨0, 0⟩
      else
        let interval := RoundingInterval.ofMagnitude coefficient exponent
        let leading := order interval.value interval.denominator
        let found := (List.range 17).findSome? fun (digits : Nat) =>
          interval.neighbour? (leading - digits)
        (found.getD ⟨0, 0⟩).normalize

def roundToSignificant (digits : Nat) (value : Float) : Float :=
  match Binary64.magnitude? value with
  | none => value
  | some (coefficient, exponent) =>
      if coefficient = 0 then
        value
      else
        let (numerator, denominator) := Binary64.scaledByTwo coefficient exponent
        let unit := order numerator denominator - (digits - 1 : Nat)
        let rounded := Binary64.roundRatio (numerator * Nat.pow 10 (-unit).toNat)
          (denominator * Nat.pow 10 unit.toNat)
        (⟨rounded, unit⟩ : Decimal).toFloat (Binary64.signBit value)

end Decimal

end ExprCalculus
