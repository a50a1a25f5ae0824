import ExprCalculus.Polynomial.Arithmetic
import ExprCalculus.Simplification.Terms

/-!
# Monomials

A monomial is a coefficient times powers of variables, which stand in the order in
which they were found.  A sum of monomials is read off the terms of a simplified
expression, may have a common factor taken out, may be read as a polynomial in one
variable with its coefficients in ascending order, and is written as an expression
again.
-/

namespace ExprCalculus

/-- The powers of some variables, each variable once. -/
abbrev Powers :=
  List (String × Nat)

namespace Powers

/-- The power of a variable, zero if it does not occur. -/
def of (powers : Powers) (name : String) : Nat :=
  (powers.lookup name).getD 0

def raise (powers : Powers) (name : String) (power : Nat) : Powers :=
  match powers with
  | [] => [(name, power)]
  | (other, present) :: rest =>
      if other = name then
        (other, present + power) :: rest
      else
        (other, present) :: raise rest name power

def mul (first second : Powers) : Powers :=
  second.foldl (fun powers (name, power) => powers.raise name power) first

def without (powers common : Powers) : Powers :=
  powers.filterMap fun (name, power) =>
    if common.of name < power then some (name, power - common.of name) else none

end Powers

/-- A coefficient times powers of variables. -/
structure Monomial (α : Type) where
  coefficient : α
  powers : Powers
deriving Repr

namespace Monomial

variable {α : Type} (arithmetic : FactoringArithmetic α)

/-- The monomial that an expression is by its shape, if it is one. -/
def ofFactor? : Expr α → Except NumericFault (Option (Monomial α))
  | .const value => .ok (some ⟨value, []⟩)
  | .var name => .ok (some ⟨arithmetic.one, [(name, 1)]⟩)
  | .unary .negate operand => do
      let inner ← ofFactor? operand
      return inner.map fun monomial =>
        ⟨arithmetic.neg monomial.coefficient, monomial.powers⟩
  | .binary .power (.var name) (.const value) => do
      let exponent ← arithmetic.exponent? value
      return exponent.map fun power => ⟨arithmetic.one, [(name, power)]⟩
  | .binary .multiply left right => do
      let first ← ofFactor? left
      let second ← ofFactor? right
      return first.bind fun one => second.map fun other =>
        ⟨arithmetic.mul one.coefficient other.coefficient,
          one.powers.mul other.powers⟩
  | _ => .ok none

def ofTerms? : List (Term α) → Except NumericFault (Option (List (Monomial α)))
  | [] => .ok (some [])
  | ⟨coefficient, none⟩ :: rest => do
      let others ← ofTerms? rest
      return others.map (⟨coefficient, []⟩ :: ·)
  | ⟨coefficient, some base⟩ :: rest => do
      match ← ofFactor? arithmetic base with
      | none => return none
      | some monomial =>
          let others ← ofTerms? rest
          return others.map
            (⟨arithmetic.mul coefficient monomial.coefficient, monomial.powers⟩ :: ·)

def ofExpr? (expression : Expr α) :
    Except NumericFault (Option (List (Monomial α))) :=
  ofTerms? arithmetic (Term.split arithmetic.toArithmetic expression)

/-- The coefficients as whole numbers, if all count as whole. -/
def wholeCoefficients? :
    List (Monomial α) → Except NumericFault (Option (List Int))
  | [] => .ok (some [])
  | monomial :: rest => do
      match ← arithmetic.whole? monomial.coefficient with
      | none => return none
      | some number =>
          let numbers ← wholeCoefficients? rest
          return numbers.map (number :: ·)

/-- The lowest powers that all of some monomials share. -/
def commonPowers : List (Monomial α) → Powers
  | [] => []
  | first :: rest =>
      first.powers.filterMap fun (name, power) =>
        if rest.all fun monomial => monomial.powers.any (·.1 = name) then
          some (name, rest.foldl
            (fun lowest monomial => min lowest (monomial.powers.of name)) power)
        else
          none

/-- The common factor of some monomials: the greatest common divisor of the
coefficients, if they are whole, and the lowest shared power of each variable. -/
def common (monomials : List (Monomial α)) : Except NumericFault (Monomial α) := do
  let content := match ← wholeCoefficients? arithmetic monomials with
    | some numbers =>
        arithmetic.ofInt ((numbers.map Int.natAbs).foldl Nat.gcd 0 : Nat)
    | none => arithmetic.one
  return ⟨content, commonPowers monomials⟩

def dividedBy (factor monomial : Monomial α) : Except NumericFault (Monomial α) := do
  let coefficient ← arithmetic.quotient monomial.coefficient factor.coefficient
  return ⟨coefficient, monomial.powers.without factor.powers⟩

/-- A power of a variable as an expression; the first power is the variable. -/
def powerExpr (name : String) (power : Nat) : Except NumericFault (Expr α) := do
  if power = 1 then
    return .var name
  else
    let exponent ← arithmetic.ofRat power
    return (.var name : Expr α) ^ (.const exponent : Expr α)

def powerExprs (powers : Powers) : Except NumericFault (List (Expr α)) :=
  powers.mapM fun (name, power) => powerExpr arithmetic name power

def powersExpr? (powers : Powers) : Except NumericFault (Option (Expr α)) := do
  match ← powerExprs arithmetic powers with
  | [] => return none
  | first :: rest => return some (rest.foldl (· * ·) first)

def sumExpr (monomials : List (Monomial α)) : Except NumericFault (Expr α) := do
  let terms ← monomials.mapM fun monomial => do
    let coefficient ← arithmetic.snap monomial.coefficient
    let base? ← powersExpr? arithmetic monomial.powers
    return ⟨coefficient, base?⟩
  return Term.join arithmetic.toArithmetic terms

/-- The ascending coefficients of a sum of monomials in one variable; there are
none if another variable occurs. -/
def coefficientsIn? (name : String) (monomials : List (Monomial α)) :
    Option (List α) :=
  if monomials.all fun monomial => monomial.powers.all (·.1 = name) then
    let degree := monomials.foldl
      (fun highest monomial => max highest (monomial.powers.of name)) 0
    some <| (List.range (degree + 1)).map fun power =>
      (monomials.filter fun monomial => monomial.powers.of name = power).foldl
        (fun sum monomial => arithmetic.add sum monomial.coefficient) arithmetic.zero
  else
    none

def polynomialExpr (name : String) (coefficients : List α) :
    Except NumericFault (Expr α) := do
  let kept := coefficients.zipIdx.reverse.filter fun (coefficient, _) =>
    arithmetic.apart coefficient arithmetic.zero
  let terms ← kept.mapM fun (coefficient, power) => do
    let base? ← if power = 0 then
        pure none
      else
        some <$> powerExpr arithmetic name power
    return ⟨← arithmetic.snap coefficient, base?⟩
  return Term.join arithmetic.toArithmetic terms

end Monomial

end ExprCalculus
