import ExprCalculus.Expr.Basic

/-!
# Digests

A digest sums up an expression without the values of its constants: these count as the
same within a tolerance, and no finer summary than one for all of them agrees with that.
Two expressions are compared part by part, but only if they are of one kind and their
digests agree; an expression found to be the very object it is compared with is not looked
into at all.
-/

namespace ExprCalculus

/-- How the digest of an expression is made from its names and the digests of its parts. -/
structure DigestScheme (δ : Type) where
  constant : δ
  var : String → δ
  unary : UnaryOperator → δ → δ
  binary : BinaryOperator → δ → δ → δ
  call : String → List δ → δ
  integral : String → δ → δ

/-- A test for being one object, which no two different expressions are. -/
structure Identity (α : Type) where
  test : Expr α → Expr α → Bool
  sound : ∀ first second, test first second = true → first = second

namespace Expr

variable {α δ : Type}

mutual

def digest (scheme : DigestScheme δ) : Expr α → δ
  | const _ => scheme.constant
  | var name => scheme.var name
  | unary operator operand => scheme.unary operator (operand.digest scheme)
  | binary operator left right =>
      scheme.binary operator (left.digest scheme) (right.digest scheme)
  | call name first others => scheme.call name (first.digest scheme :: digestAll scheme others)
  | integral integrand name => scheme.integral name (integrand.digest scheme)

def digestAll (scheme : DigestScheme δ) : List (Expr α) → List δ
  | [] => []
  | expression :: rest => expression.digest scheme :: digestAll scheme rest

end

variable [DecidableEq δ] (scheme : DigestScheme δ) (identity : Identity α)
  (same : α → α → Bool)

/-- Whether two expressions are one object, or of one kind with one digest and with equal
parts. -/
def equalIf (first second : Expr α) (partsEqual : Bool) : Bool :=
  identity.test first second ||
    (first.kind = second.kind && first.digest scheme = second.digest scheme && partsEqual)

mutual

/-- Whether two expressions of one kind have equal parts. -/
def partsEqual : Expr α → Expr α → Bool
  | const first, const second => same first second
  | var first, var second => first = second
  | unary firstOperator first, unary secondOperator second =>
      firstOperator = secondOperator &&
        equalIf scheme identity first second (partsEqual first second)
  | binary firstOperator firstLeft firstRight,
      binary secondOperator secondLeft secondRight =>
      firstOperator = secondOperator
        && equalIf scheme identity firstLeft secondLeft (partsEqual firstLeft secondLeft)
        && equalIf scheme identity firstRight secondRight (partsEqual firstRight secondRight)
  | call firstName first firstOthers, call secondName second secondOthers =>
      firstName = secondName
        && equalIf scheme identity first second (partsEqual first second)
        && argumentsEqual firstOthers secondOthers
  | integral first firstName, integral second secondName =>
      firstName = secondName &&
        equalIf scheme identity first second (partsEqual first second)
  | _, _ => false

def argumentsEqual : List (Expr α) → List (Expr α) → Bool
  | [], [] => true
  | first :: firsts, second :: seconds =>
      equalIf scheme identity first second (partsEqual first second)
        && argumentsEqual firsts seconds
  | _, _ => false

end

def equals (first second : Expr α) : Bool :=
  equalIf scheme identity first second (partsEqual scheme identity same first second)

end Expr

end ExprCalculus
