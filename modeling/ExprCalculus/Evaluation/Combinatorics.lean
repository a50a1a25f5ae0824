import ExprCalculus.Evaluation.Fault

/-!
# Combinatorics on doubles

Factorials, binomial coefficients, permutations, greatest common divisors and
least common multiples of doubles that are nonnegative whole numbers within the
tolerance.  A result beyond the largest double is a fault.  The checked functions
compute the exact whole number and round it once; the unchecked ones multiply
doubles.  Logarithmic bounds refuse arguments whose result is certainly too
large before any product is formed.
-/

namespace ExprCalculus

namespace Combinatorics

abbrev Outcome :=
  Except (EvaluationFault Float)

/-- The coefficients of the numerator of the Lanczos approximation, from the
constant term upward. -/
def lanczosNumerator : List Float :=
  [23531376880.410759688572, 42919803642.649098768958, 35711959237.355668049440,
    17921034426.037209699920, 6039542586.3520280050643, 1439720407.3117216736632,
    248874557.86205415651146, 31426415.585400194380614, 2876370.6289353724412254,
    186056.26539522349504030, 8071.6720023658162106380, 210.82427775157934587251,
    2.5066282746310002701649]

def lanczosDenominator : List Float :=
  [0.0, 39916800.0, 120543840.0, 150917976.0, 105258076.0, 45995730.0, 13339535.0,
    2637558.0, 357423.0, 32670.0, 1925.0, 66.0, 1.0]

def lanczosShift : Float :=
  6.024680040776729583740234375

/-- The rational function of the Lanczos approximation, evaluated in the
argument or, for large arguments, in its reciprocal. -/
def lanczosSum (argument : Float) : Float :=
  if argument < 5.0 then
    let polynomial := fun (coefficients : List Float) =>
      coefficients.foldr (fun coefficient value => value * argument + coefficient) 0.0
    polynomial lanczosNumerator / polynomial lanczosDenominator
  else
    let polynomial := fun (coefficients : List Float) =>
      coefficients.foldl (fun value coefficient => value / argument + coefficient) 0.0
    polynomial lanczosNumerator / polynomial lanczosDenominator

/-- The logarithm of the gamma function at a positive whole number. -/
def logGamma (argument : Nat) : Outcome Float :=
  if argument ≤ 2 then
    .ok 0.0
  else
    let value := Binary64.ofInt argument
    let base := Float.log (lanczosSum value) - lanczosShift
    let result := base + (value - 0.5) * (Float.log (value + lanczosShift - 0.5) - 1.0)
    if result.isInf then .error .logGammaOverflow else .ok result

/-- The logarithms that the bounds on the results are computed with: of doubles, and of the
gamma function at positive whole numbers. -/
structure Logarithms where
  log : Float → Float
  logGamma : Nat → Outcome Float

namespace Logarithms

def standard : Logarithms where
  log := Float.log
  logGamma := Combinatorics.logGamma

variable (logarithms : Logarithms)

/-- Results with a larger logarithm than this are beyond the largest double. -/
def limit : Float :=
  logarithms.log Binary64.largest + 1.0

/-- The logarithm of `(total / chosen) ^ chosen`, which is at most the number of ways to
choose so many elements. -/
def choiceBound (total chosen : Nat) : Float :=
  let ratio := (Binary64.ofRatio? false total chosen).getD Binary64.infinity
  Binary64.ofInt chosen * logarithms.log ratio

/-- Whether there are certainly too many ways to choose some elements. -/
def refusesChoice (total chosen : Nat) : Bool :=
  0 < chosen && logarithms.limit < logarithms.choiceBound total chosen

/-- The logarithm of `(total - part + 1) ^ part`, which is at most the number of ways to
arrange so many elements. -/
def powerBound (total part : Nat) : Float :=
  Binary64.ofInt part * logarithms.log (Binary64.ofInt (total - part + 1 : Nat))

/-- Whether there are certainly too many ways to arrange some elements.  The factorial of
their number is a second lower bound. -/
def refusesArrangement (total part : Nat) : Outcome Bool := do
  let powerBound := logarithms.powerBound total part
  let factorialBound ← logarithms.logGamma (part + 1)
  let bound := if powerBound < factorialBound then factorialBound else powerBound
  return logarithms.limit < bound

def refusesFactorial (number : Nat) : Outcome Bool := do
  let logarithm ← logarithms.logGamma (number + 1)
  return logarithms.limit < logarithm

end Logarithms

/-- The nonnegative whole number within the tolerance of a double. -/
def wholeArgument (settings : Settings) (function : String) (argument : Float) :
    Outcome Nat :=
  match Binary64.nearestInt? argument with
  | none => .error (.notWhole function argument)
  | some nearest =>
      if nearest < 0
          || settings.epsilon < (argument - Binary64.ofInt nearest).abs then
        .error (.notWhole function argument)
      else
        .ok nearest.toNat

/-- The double nearest to an exact result that is at most the largest double. -/
def checkedResult (function : String) (exact : Nat) : Outcome Float :=
  if Binary64.largestNumber < exact then
    .error (.tooLarge function)
  else
    .ok (Binary64.ofInt exact)

/-- A result formed from doubles, which has overflowed if it is infinite. -/
def uncheckedResult (function : String) (result : Float) : Outcome Float :=
  if result.isInf then .error (.tooLarge function) else .ok result

/-- The product of the whole numbers from `start`, as many as `count`. -/
def risingProduct (start count : Nat) : Nat :=
  (List.range count).foldl (fun product step => product * (start + step)) 1

def factorialOfDoubles (number : Nat) : Float :=
  Nat.fold (number - 1) (fun step _ product => product * Binary64.ofInt (step + 2)) 1.0

/-- A binomial coefficient as a product of doubles, where every factor of the numerator
is followed by one of the denominator. -/
def choicesOfDoubles (total chosen : Nat) : Float :=
  Nat.fold chosen
    (fun step _ product =>
      product * Binary64.ofInt (total - chosen + 1 + step) / Binary64.ofInt (step + 1))
    1.0

/-- A number of permutations as a product of doubles, from the largest factor down. -/
def arrangementsOfDoubles (total part : Nat) : Float :=
  Nat.fold part (fun step _ product => product * Binary64.ofInt (total - step : Nat)) 1.0

section Functions

variable (logarithms : Logarithms) (settings : Settings)

def factorial (argument : Float) : Outcome Float := do
  let number ← wholeArgument settings "factorial" argument
  if settings.checkedCombinatorics then
    if ← logarithms.refusesFactorial number then
      .error (.tooLarge "factorial")
    else
      checkedResult "factorial" (risingProduct 1 number)
  else if settings.factorialLimit < number then
    .error (.beyondLimit number settings.factorialLimit)
  else
    .ok (factorialOfDoubles number)

def binomial (elements chosen : Float) : Outcome Float := do
  let total ← wholeArgument settings "binomial" elements
  let part ← wholeArgument settings "binomial" chosen
  if total < part then
    return 0.0
  let smaller := min part (total - part)
  if logarithms.refusesChoice total smaller then
    .error (.tooLarge "binomial")
  else if settings.checkedCombinatorics then
    checkedResult "binomial"
      (risingProduct (total - smaller + 1) smaller / risingProduct 1 smaller)
  else
    uncheckedResult "binomial" (choicesOfDoubles total smaller)

def permutation (elements chosen : Float) : Outcome Float := do
  let total ← wholeArgument settings "permutation" elements
  let part ← wholeArgument settings "permutation" chosen
  if total < part then
    .error .tooFewElements
  else if ← logarithms.refusesArrangement total part then
    .error (.tooLarge "permutation")
  else if settings.checkedCombinatorics then
    checkedResult "permutation" (risingProduct (total - part + 1) part)
  else
    uncheckedResult "permutation" (arrangementsOfDoubles total part)

end Functions

def greatestCommonDivisor (settings : Settings) (first second : Float) :
    Outcome Float := do
  let firstWhole ← wholeArgument settings "gcd" first
  let secondWhole ← wholeArgument settings "gcd" second
  return Binary64.ofInt (firstWhole.gcd secondWhole)

def leastCommonMultiple (settings : Settings) (first second : Float) :
    Outcome Float := do
  let firstWhole ← wholeArgument settings "lcm" first
  let secondWhole ← wholeArgument settings "lcm" second
  if firstWhole = 0 || secondWhole = 0 then
    return 0.0
  checkedResult "lcm" (firstWhole.lcm secondWhole)

end Combinatorics

end ExprCalculus
