import ExprCalculus.Decimal.Format

/-!
# Settings

The tolerance used by every approximate comparison, and how factorials and
binomial coefficients are computed.
-/

namespace ExprCalculus

/-- The choices that govern comparisons and combinatorics: numbers nearer than `epsilon` are
taken for equal, the limit holds for unchecked factorials, and checked combinatorics computes
exactly before it rounds. -/
structure Settings where
  epsilon : Float
  factorialLimit : Int
  checkedCombinatorics : Bool

namespace Settings

/-- A tolerance of `10 ^ -10`, exact combinatorics, and factorials up to the
largest that a double holds. -/
def standard : Settings where
  epsilon := 1e-10
  factorialLimit := 170
  checkedCombinatorics := true

/-- Whether two doubles differ by less than the tolerance. -/
def near (settings : Settings) (first second : Float) : Bool :=
  (first - second).abs < settings.epsilon

/-- Whether two doubles differ by at least the tolerance.  Neither this nor
`near` holds when the difference is undefined. -/
def apart (settings : Settings) (first second : Float) : Bool :=
  settings.epsilon <= (first - second).abs

/-- Whether two constants count as the same: both undefined, equal, or nearer
than the tolerance. -/
def same (settings : Settings) (first second : Float) : Bool :=
  if first.isNaN || second.isNaN then
    first.isNaN && second.isNaN
  else
    first == second || settings.near first second

end Settings

def piConstant : Float :=
  3.141592653589793

def eulerConstant : Float :=
  2.718281828459045

end ExprCalculus
