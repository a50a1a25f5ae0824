import ExprCalculus.Simplification.Terms
import ExprCalculus.Notice
import ExprCalculus.Traced

/-!
# Simplification

An expression is simplified in one pass from the leaves to the root.  At each
node constant operands are folded to the value of the node, and otherwise one
rule for the operator is applied.  The rules serve as constructors of simplified
expressions too.

Folding delegates to the evaluator.  It leaves a node as it is when its value is
not finite, or when it has none for a reason that lies in the expression; the
latter is reported.
-/

namespace ExprCalculus

namespace Simplification

variable {α : Type} (arithmetic : Arithmetic α)

/-- Simplifying leaves notices and may end with a fault of the computation. -/
abbrev Simplifying (α β : Type) :=
  Traced (Notice α) (EvaluationFault α) β

/-- The finite value of an expression without variables, if it has one. -/
def fold (expression : Expr α) : Simplifying α (Option α) :=
  match expression.closedValue arithmetic with
  | .ok value => pure (if arithmetic.isFinite value then some value else none)
  | .error fault =>
      if fault.isOrdinary then do
        Traced.note (.foldingSkipped expression fault)
        return none
      else
        .fail fault

/-- The folded value of an expression if all its operands are constants. -/
def foldOver (operands : List (Expr α)) (expression : Expr α) :
    Simplifying α (Option α) :=
  if operands.all fun operand => operand.kind = .constant then
    fold arithmetic expression
  else
    pure none

/-- A negation of a negation is its operand. -/
def unaryRule (operator : UnaryOperator) (operand : Expr α) : Expr α :=
  match operator, operand with
  | .negate, .unary .negate inner => inner
  | _, _ => .unary operator operand

def unary (operator : UnaryOperator) (operand : Expr α) :
    Simplifying α (Expr α) := do
  match ← foldOver arithmetic [operand] (.unary operator operand) with
  | some value => return .const value
  | none => return unaryRule operator operand

/-- A sum with a zero is the other operand; other sums have their terms
collected. -/
def sumRule (left right : Expr α) : Expr α :=
  if arithmetic.isConst arithmetic.zero left then right
  else if arithmetic.isConst arithmetic.zero right then left
  else Term.collect arithmetic (left + right)

/-- Subtracting zero changes nothing, subtracting an expression from itself gives
zero, and other differences have their terms collected. -/
def differenceRule (left right : Expr α) : Expr α :=
  if arithmetic.isConst arithmetic.zero right then left
  else if arithmetic.sameExpr left right then .const arithmetic.zero
  else Term.collect arithmetic (left - right)

/-- Zero divided by anything is zero, division by one changes nothing, and an
expression divided by itself is one. -/
def quotientRule (left right : Expr α) : Expr α :=
  if arithmetic.isConst arithmetic.zero left then .const arithmetic.zero
  else if arithmetic.isConst arithmetic.one right then left
  else if arithmetic.sameExpr left right then .const arithmetic.one
  else left / right

/-- The exponents zero and one and the bases one and zero need no power. -/
def powerRule (base exponent : Expr α) : Expr α :=
  if arithmetic.isConst arithmetic.zero exponent then .const arithmetic.one
  else if arithmetic.isConst arithmetic.one exponent then base
  else if arithmetic.isConst arithmetic.one base then .const arithmetic.one
  else if arithmetic.isConst arithmetic.zero base then .const arithmetic.zero
  else base ^ exponent

def asPower : Expr α → Expr α × Expr α
  | .binary .power base exponent => (base, exponent)
  | expression => (expression, .const arithmetic.one)

def sum (left right : Expr α) : Simplifying α (Expr α) := do
  match ← foldOver arithmetic [left, right] (left + right) with
  | some value => return .const value
  | none => return sumRule arithmetic left right

/-- A product with zero is zero, a product with one is the other factor, and
powers of the same base have their exponents added. -/
def productRule (left right : Expr α) : Simplifying α (Expr α) :=
  if arithmetic.isConst arithmetic.zero left
      || arithmetic.isConst arithmetic.zero right then
    pure (.const arithmetic.zero)
  else if arithmetic.isConst arithmetic.one left then
    pure right
  else if arithmetic.isConst arithmetic.one right then
    pure left
  else
    let (leftBase, leftExponent) := asPower arithmetic left
    let (rightBase, rightExponent) := asPower arithmetic right
    if leftBase.kind ≠ .constant && arithmetic.sameExpr leftBase rightBase then do
      let exponent ← sum arithmetic leftExponent rightExponent
      return powerRule arithmetic leftBase exponent
    else
      pure (left * right)

/-- The rule of an operator between two simplified operands that are not both
constant, or have no finite value. -/
def binaryRule (operator : BinaryOperator) (left right : Expr α) :
    Simplifying α (Expr α) :=
  match operator with
  | .add => pure (sumRule arithmetic left right)
  | .subtract => pure (differenceRule arithmetic left right)
  | .multiply => productRule arithmetic left right
  | .divide => pure (quotientRule arithmetic left right)
  | .power => pure (powerRule arithmetic left right)
  | .modulo => pure (.binary .modulo left right)
  | .logBase => pure (.binary .logBase left right)

def binary (operator : BinaryOperator) (left right : Expr α) :
    Simplifying α (Expr α) := do
  match ← foldOver arithmetic [left, right] (.binary operator left right) with
  | some value => return .const value
  | none => binaryRule arithmetic operator left right

def call (name : String) (first : Expr α) (others : List (Expr α)) :
    Simplifying α (Expr α) := do
  match ← foldOver arithmetic (first :: others) (.call name first others) with
  | some value => return .const value
  | none => return .call name first others

end Simplification

namespace Expr

variable {α : Type}

mutual

def simplify (arithmetic : Arithmetic α) :
    Expr α → Simplification.Simplifying α (Expr α)
  | const value => pure (const value)
  | var name => pure (var name)
  | unary operator operand => do
      let simplified ← operand.simplify arithmetic
      Simplification.unary arithmetic operator simplified
  | binary operator left right => do
      let simplifiedLeft ← left.simplify arithmetic
      let simplifiedRight ← right.simplify arithmetic
      Simplification.binary arithmetic operator simplifiedLeft simplifiedRight
  | call name first others => do
      let simplifiedFirst ← first.simplify arithmetic
      let simplifiedOthers ← simplifyAll arithmetic others
      Simplification.call arithmetic name simplifiedFirst simplifiedOthers
  | integral integrand name => do
      let simplified ← integrand.simplify arithmetic
      return integral simplified name

def simplifyAll (arithmetic : Arithmetic α) :
    List (Expr α) → Simplification.Simplifying α (List (Expr α))
  | [] => pure []
  | expression :: rest => do
      let simplified ← expression.simplify arithmetic
      let simplifiedRest ← simplifyAll arithmetic rest
      return simplified :: simplifiedRest

end

theorem simplify_const (arithmetic : Arithmetic α) (value : α) :
    (const value).simplify arithmetic = pure (const value) := by
  rw [simplify]

theorem simplify_var (arithmetic : Arithmetic α) (name : String) :
    (var name).simplify arithmetic = pure (var name) := by
  rw [simplify]

theorem simplifyAll_nil (arithmetic : Arithmetic α) :
    simplifyAll arithmetic ([] : List (Expr α)) = pure [] := by
  rw [simplifyAll]

end Expr

end ExprCalculus
