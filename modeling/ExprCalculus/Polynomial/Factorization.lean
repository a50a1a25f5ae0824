import ExprCalculus.Polynomial.Monomial
import ExprCalculus.Simplification.Basic

/-!
# Factorization

A sum of monomials has its common factor taken out.  What remains, read as a
polynomial in one variable, is split further: a quadratic polynomial by its roots
if they are fractions, a difference of two squares into two polynomials of half
the degree, and any other polynomial by a root among a fixed set of fractions.
-/

namespace ExprCalculus

namespace Factorization

variable {α : Type} (arithmetic : FactoringArithmetic α)

/-- The product of some factors, with the constant ones merged in front. -/
def product (factors : List (Expr α)) : Except NumericFault (Expr α) := do
  let scale := factors.foldl (fun scale factor =>
    match factor with
    | .const value => arithmetic.mul scale value
    | _ => scale) arithmetic.one
  match factors.filter fun factor => factor.kind ≠ .constant with
  | [] => return .const (← arithmetic.snap scale)
  | first :: rest =>
      if arithmetic.near scale (arithmetic.ofInt (-1)) then
        return rest.foldl (· * ·) (-first)
      else if arithmetic.apart scale arithmetic.one then
        return (first :: rest).foldl (· * ·) (.const (← arithmetic.snap scale))
      else
        return rest.foldl (· * ·) first

/-- The factor `q * x - p` of a polynomial with the root `p / q`. -/
def linearFactor (name : String) (root : Rat) : Expr α :=
  let leading : Expr α :=
    if root.den = 1 then .var name else .const (arithmetic.ofInt root.den) * .var name
  if root.num = 0 then leading
  else if 0 < root.num then leading - .const (arithmetic.ofInt root.num)
  else leading + .const (arithmetic.ofInt (-root.num))

/-- The factors of `a * x ^ 2 + b * x + c` if its roots are fractions. -/
def quadratic? (name : String) (c b a : α) :
    Except NumericFault (Option (List (Expr α))) := do
  let two := arithmetic.ofInt 2
  let minus := fun (first second : α) => arithmetic.binary .subtract first second
  let fourTimes := arithmetic.mul (arithmetic.mul (arithmetic.ofInt 4) a) c
  let discriminant := minus (arithmetic.mul b b) fourTimes
  let fractionAt := fun (numerator : α) => do
    arithmetic.fraction? (← arithmetic.quotient numerator (arithmetic.mul two a))
  if arithmetic.clearlyNegative discriminant then
    return none
  else if arithmetic.near discriminant arithmetic.zero then
    match ← fractionAt (arithmetic.neg b) with
    | none => return none
    | some root =>
        let scale ← arithmetic.quotient a (arithmetic.ofInt (root.den * root.den : Nat))
        let factor := linearFactor arithmetic name root
        return some [.const scale, factor ^ (.const two : Expr α)]
  else
    let distance ← arithmetic.root discriminant
    let upper? ← fractionAt (arithmetic.add (arithmetic.neg b) distance)
    let lower? ← fractionAt (minus (arithmetic.neg b) distance)
    match upper?, lower? with
    | some upper, some lower =>
        let (larger, smaller) := if upper < lower then (lower, upper) else (upper, lower)
        let scale ←
          arithmetic.quotient a (arithmetic.ofInt (larger.den * smaller.den : Nat))
        return some [.const scale, linearFactor arithmetic name larger,
          linearFactor arithmetic name smaller]
    | _, _ => return none

/-- A polynomial with `length` coefficients written as a product: factors that are
finished, and shorter polynomials that may be split again. -/
structure Splitting (α : Type) (length : Nat) where
  factors : List (Expr α)
  cofactors : List { coefficients : List α // coefficients.length < length }

/-- The splitting of `a * x ^ (2 * k) + c` with whole square roots and opposite
signs of `a` and `c`. -/
def squares? (coefficients : List α) :
    Except NumericFault (Option (Splitting α coefficients.length)) := do
  let half := coefficients.length / 2
  let inner := coefficients.tail.dropLast
  match coefficients.getLast?, coefficients.head? with
  | some leading, some constant =>
      if even : coefficients.length % 2 = 1 ∧ 0 < half then
        if inner.any (arithmetic.apart · arithmetic.zero)
            || !arithmetic.opposite leading constant then
          return none
        else
          match ← arithmetic.wholeRoot? leading with
          | none => return none
          | some leadingRoot =>
              match ← arithmetic.wholeRoot? constant with
              | none => return none
              | some constantRoot =>
                  let withConstant := fun (number : Int) =>
                    arithmetic.ofInt number
                      :: (List.replicate (half - 1) arithmetic.zero
                        ++ [arithmetic.ofInt leadingRoot])
                  have shorter (number : Int) :
                      (withConstant number).length < coefficients.length := by
                    simp only [withConstant, List.length_cons, List.length_append,
                      List.length_replicate, List.length_nil]
                    omega
                  let sign := if arithmetic.isNegative leading then
                      [Expr.const (arithmetic.ofInt (-1))]
                    else
                      []
                  return some ⟨sign, [⟨withConstant (-constantRoot), shorter _⟩,
                    ⟨withConstant constantRoot, shorter _⟩]⟩
      else
        return none
  | _, _ => return none

/-- The fractions that are tried as roots, by magnitude and the negative one
first: those with a numerator of at most ten and a denominator of at most five. -/
def candidates : List Rat :=
  let fractions := (List.range 21).flatMap fun (numerator : Nat) =>
    (List.range 5).map fun (denominator : Nat) =>
      mkRat ((numerator : Int) - 10) (denominator + 1)
  let before := fun (first second : Rat) =>
    let firstSize := Approximation.magnitude first
    let secondSize := Approximation.magnitude second
    decide (firstSize < secondSize) || (firstSize == secondSize && decide (first ≤ second))
  fractions.eraseDups.mergeSort before

def valueAt (number : α) (coefficients : List α) : Except NumericFault α :=
  coefficients.zipIdx.foldlM (fun sum (coefficient, exponent) => do
    let power ← arithmetic.power number exponent
    return arithmetic.add sum (arithmetic.mul coefficient power)) arithmetic.zero

/-- The first of some fractions that counts as a root of a polynomial. -/
def firstRoot? (coefficients : List α) : List Rat → Except NumericFault (Option (Rat × α))
  | [] => .ok none
  | root :: others => do
      let number ← arithmetic.ofRat root
      let value ← valueAt arithmetic number coefficients
      if arithmetic.negligible coefficients value then
        return some (root, number)
      else
        firstRoot? coefficients others

/-- The values of a polynomial and of the polynomials that remain when its lowest
coefficients are dropped one by one, all at the same number. -/
def suffixValues (number : α) : List α → List α
  | [] => []
  | coefficient :: rest =>
      let values := suffixValues number rest
      let next := values.headD arithmetic.zero
      arithmetic.add coefficient (arithmetic.mul number next) :: values

@[simp]
theorem length_suffixValues (number : α) (coefficients : List α) :
    (suffixValues arithmetic number coefficients).length = coefficients.length := by
  induction coefficients with
  | nil => rfl
  | cons coefficient rest ih =>
      simp [suffixValues, ih]

/-- The quotient of a polynomial by `x - root`, without the remainder. -/
def deflate (root : α) (coefficients : List α) : List α :=
  suffixValues arithmetic root coefficients.tail

theorem length_deflate (root : α) (coefficients : List α) :
    (deflate arithmetic root coefficients).length = coefficients.length - 1 := by
  simp [deflate]

/-- The splitting of a polynomial by the first fraction that counts as a root.  For
the root `p / q` the factor is `q * x - p`, and the quotient is divided by `q`. -/
def rationalRoot? (name : String) (coefficients : List α) :
    Except NumericFault (Option (Splitting α coefficients.length)) := do
  match ← firstRoot? arithmetic coefficients candidates with
  | none => return none
  | some (root, number) =>
      let divisor := arithmetic.ofInt root.den
      let quotient := (deflate arithmetic number coefficients).map
        (arithmetic.div · divisor)
      if shorter : quotient.length < coefficients.length then
        return some ⟨[linearFactor arithmetic name root], [⟨quotient, shorter⟩]⟩
      else
        return none

/-- One step of factoring a polynomial in a variable. -/
def split? (name : String) (coefficients : List α) :
    Except NumericFault (Option (Splitting α coefficients.length)) := do
  match coefficients with
  | [c, b, a] =>
      let factors ← quadratic? arithmetic name c b a
      return factors.map fun found => ⟨found, []⟩
  | _ =>
      if 3 < coefficients.length then
        match ← squares? arithmetic coefficients with
        | some splitting => return some splitting
        | none => rationalRoot? arithmetic name coefficients
      else
        return none

def factors? (name : String) (coefficients : List α) :
    Except NumericFault (Option (List (Expr α))) := do
  match ← split? arithmetic name coefficients with
  | none => return none
  | some splitting =>
      let parts ← splitting.cofactors.mapM fun cofactor => do
        have := cofactor.property
        match ← factors? name cofactor.val with
        | some factors => return factors
        | none => return [← Monomial.polynomialExpr arithmetic name cofactor.val]
      return some (splitting.factors ++ parts.flatten)
termination_by coefficients.length

def variablesOf (monomials : List (Monomial α)) : List String :=
  (monomials.flatMap fun monomial => monomial.powers.map (·.1)).eraseDups

/-- The variable to factor in: the requested one, or else the only one. -/
def chosenVariable? (requested? : Option String) (monomials : List (Monomial α)) :
    Option String :=
  requested?.or (match variablesOf monomials with
    | [name] => some name
    | _ => none)

def takeCommon (monomials : List (Monomial α)) :
    Except NumericFault (List (Expr α) × List (Monomial α)) := do
  let common ← Monomial.common arithmetic monomials
  if arithmetic.apart common.coefficient arithmetic.one || !common.powers.isEmpty then
    let powers ← Monomial.powerExprs arithmetic common.powers
    let rest ← monomials.mapM (Monomial.dividedBy arithmetic common)
    return (.const common.coefficient :: powers, rest)
  else
    return ([], monomials)

def ofMonomials? (requested? : Option String) (monomials : List (Monomial α)) :
    Except NumericFault (Option (Expr α)) := do
  let (front, rest) ← takeCommon arithmetic monomials
  let polynomial? := do
    let name ← chosenVariable? requested? rest
    let coefficients ← Monomial.coefficientsIn? arithmetic name rest
    return (name, coefficients)
  let split ← match polynomial? with
    | some (name, coefficients) => factors? arithmetic name coefficients
    | none => pure none
  match split, front with
  | some factors, _ => return some (← product arithmetic (front ++ factors))
  | none, [] => return none
  | none, _ =>
      let sum ← Monomial.sumExpr arithmetic rest
      return some (← product arithmetic (front ++ [sum]))

end Factorization

namespace Expr

variable {α : Type}

/-- The factored form of an expression, in a requested variable or in its only
one.  An expression that is no sum of monomials, or cannot be split, is only
simplified. -/
def factor (arithmetic : FactoringArithmetic α) (requested? : Option String)
    (expression : Expr α) : Traced (Notice α) (TransformFault α) (Expr α) := do
  let numeric := fun {β : Type} (outcome : Except NumericFault β) =>
    (Traced.ofExcept (outcome.mapError TransformFault.numeric) :
      Traced (Notice α) (TransformFault α) β)
  Traced.note (.factoring expression)
  let simplified ←
    (expression.simplify arithmetic.toArithmetic).mapFault TransformFault.evaluation
  match ← numeric (Monomial.ofExpr? arithmetic simplified) with
  | some (first :: second :: rest) =>
      let product? ← numeric
        (Factorization.ofMonomials? arithmetic requested? (first :: second :: rest))
      match product? with
      | some product => return product
      | none =>
          Traced.note (.noFactorization simplified)
          return simplified
  | _ =>
      Traced.note (.nothingToFactor simplified)
      return simplified

end Expr

end ExprCalculus
