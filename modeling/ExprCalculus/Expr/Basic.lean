import ExprCalculus.Operator
import ExprCalculus.Text.LowerCase

/-!
# Expressions

An expression is a constant, a variable, an operator applied to operands, a call
of a named function, or the marker of an integral that has no known closed form.
The type of the constants is a parameter: the engine runs on doubles, and its
laws can be read in any other arithmetic.  A call has at least one argument, so
its first argument stands apart from the others.
-/

namespace ExprCalculus

/-- Expressions with constants of type `α`.  An integral is a marker, left as it is. -/
inductive Expr (α : Type) where
  | const (value : α)
  | var (name : String)
  | unary (operator : UnaryOperator) (operand : Expr α)
  | binary (operator : BinaryOperator) (left right : Expr α)
  | call (name : String) (first : Expr α) (others : List (Expr α))
  | integral (integrand : Expr α) (name : String)
deriving Repr, Inhabited

namespace Expr

variable {α : Type}

/-- The kinds of expressions. -/
inductive Kind where
  | constant
  | var
  | unary
  | binary
  | call
  | integral
deriving DecidableEq, Repr

def kind : Expr α → Kind
  | const _ => .constant
  | var _ => .var
  | unary _ _ => .unary
  | binary _ _ _ => .binary
  | call _ _ _ => .call
  | integral _ _ => .integral

/-- The expressions directly below the root, from left to right. -/
def children : Expr α → List (Expr α)
  | const _ => []
  | var _ => []
  | unary _ operand => [operand]
  | binary _ left right => [left, right]
  | call _ first others => first :: others
  | integral integrand _ => [integrand]

mutual

def size : Expr α → Nat
  | const _ => 1
  | var _ => 1
  | unary _ operand => operand.size + 1
  | binary _ left right => left.size + right.size + 1
  | call _ first others => first.size + sizeAll others + 1
  | integral integrand _ => integrand.size + 1

def sizeAll : List (Expr α) → Nat
  | [] => 0
  | expression :: rest => expression.size + sizeAll rest

end

mutual

def depth : Expr α → Nat
  | const _ => 1
  | var _ => 1
  | unary _ operand => operand.depth + 1
  | binary _ left right => max left.depth right.depth + 1
  | call _ first others => max first.depth (depthAll others) + 1
  | integral integrand _ => integrand.depth + 1

def depthAll : List (Expr α) → Nat
  | [] => 0
  | expression :: rest => max expression.depth (depthAll rest)

end

mutual

/-- Whether a variable occurs in an expression, be it only as the variable of an
integral. -/
def mentions (name : String) : Expr α → Bool
  | const _ => false
  | var other => other = name
  | unary _ operand => operand.mentions name
  | binary _ left right => left.mentions name || right.mentions name
  | call _ first others => first.mentions name || mentionsAny name others
  | integral integrand bound => integrand.mentions name || bound = name

def mentionsAny (name : String) : List (Expr α) → Bool
  | [] => false
  | expression :: rest => expression.mentions name || mentionsAny name rest

end

mutual

/-- The variables of an expression, each as often as it occurs. -/
def occurrences : Expr α → List String
  | const _ => []
  | var name => [name]
  | unary _ operand => operand.occurrences
  | binary _ left right => left.occurrences ++ right.occurrences
  | call _ first others => first.occurrences ++ occurrencesAll others
  | integral integrand name => integrand.occurrences ++ [name]

def occurrencesAll : List (Expr α) → List String
  | [] => []
  | expression :: rest => expression.occurrences ++ occurrencesAll rest

end

/-- The variables of an expression in ascending order, each once. -/
def variableNames (expression : Expr α) : List String :=
  expression.occurrences.eraseDups.mergeSort

/-- Whether an expression has no variable. -/
def isConstant (expression : Expr α) : Bool :=
  expression.occurrences.isEmpty

mutual

/-- Whether an expression holds the marker of an unknown integral. -/
def hasMarker : Expr α → Bool
  | const _ => false
  | var _ => false
  | unary _ operand => operand.hasMarker
  | binary _ left right => left.hasMarker || right.hasMarker
  | call _ first others => first.hasMarker || hasMarkerAny others
  | integral _ _ => true

def hasMarkerAny : List (Expr α) → Bool
  | [] => false
  | expression :: rest => expression.hasMarker || hasMarkerAny rest

end

mutual

def map {β : Type} (image : α → β) : Expr α → Expr β
  | const value => const (image value)
  | var name => var name
  | unary operator operand => unary operator (operand.map image)
  | binary operator left right => binary operator (left.map image) (right.map image)
  | call name first others => call name (first.map image) (mapAll image others)
  | integral integrand name => integral (integrand.map image) name

def mapAll {β : Type} (image : α → β) : List (Expr α) → List (Expr β)
  | [] => []
  | expression :: rest => expression.map image :: mapAll image rest

end

mutual

/-- Whether two expressions have the same shape, names and operators, and
constants that count as the same in corresponding places. -/
def sameBy (same : α → α → Bool) : Expr α → Expr α → Bool
  | const first, const second => same first second
  | var first, var second => first = second
  | unary firstOperator first, unary secondOperator second =>
      firstOperator = secondOperator && sameBy same first second
  | binary firstOperator firstLeft firstRight,
      binary secondOperator secondLeft secondRight =>
      firstOperator = secondOperator && sameBy same firstLeft secondLeft
        && sameBy same firstRight secondRight
  | call firstName first firstOthers, call secondName second secondOthers =>
      firstName = secondName && sameBy same first second
        && sameAllBy same firstOthers secondOthers
  | integral first firstName, integral second secondName =>
      firstName = secondName && sameBy same first second
  | _, _ => false

def sameAllBy (same : α → α → Bool) : List (Expr α) → List (Expr α) → Bool
  | [], [] => true
  | first :: firsts, second :: seconds =>
      sameBy same first second && sameAllBy same firsts seconds
  | _, _ => false

end

/-- Whether two expressions differ at most in their constants. -/
def sameShape : Expr α → Expr α → Bool :=
  sameBy fun _ _ => true

instance : Neg (Expr α) where
  neg operand := unary .negate operand

instance : Add (Expr α) where
  add left right := binary .add left right

instance : Sub (Expr α) where
  sub left right := binary .subtract left right

instance : Mul (Expr α) where
  mul left right := binary .multiply left right

instance : Div (Expr α) where
  div left right := binary .divide left right

instance : HPow (Expr α) (Expr α) (Expr α) where
  hPow base exponent := binary .power base exponent

end Expr

/-- Why an expression cannot be built. -/
inductive BuildError where
  | unknownUnary (word : String)
  | unknownBinary (word : String)
  | emptyVariable
  | noArguments (function : String)
deriving DecidableEq, Repr

namespace BuildError

def message : BuildError → String
  | unknownUnary word => s!"Unknown unary operator: {word}"
  | unknownBinary word => s!"Unknown binary operator: {word}"
  | emptyVariable => "Variable name cannot be empty"
  | noArguments function => s!"Function '{function}' requires at least one argument"

end BuildError

namespace Expr

variable {α : Type}

/-- The variable of a given name, which must not be empty. -/
def var? (name : String) : Except BuildError (Expr α) :=
  if name.isEmpty then .error .emptyVariable else .ok (var name)

/-- A call of the function of a given name, taken in lower case. -/
def call? (name : String) : List (Expr α) → Except BuildError (Expr α)
  | [] => .error (.noArguments name)
  | first :: others => .ok (call (Text.toLower name) first others)

def unary? (word : String) (operand : Expr α) : Except BuildError (Expr α) :=
  match UnaryOperator.ofWord? word with
  | none => .error (.unknownUnary word)
  | some operator => .ok (unary operator operand)

def binary? (symbol : String) (left right : Expr α) :
    Except BuildError (Expr α) :=
  match BinaryOperator.ofSymbol? symbol with
  | none => .error (.unknownBinary symbol)
  | some operator => .ok (binary operator left right)

end Expr

end ExprCalculus
