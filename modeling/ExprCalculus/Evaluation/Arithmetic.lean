import ExprCalculus.Evaluation.Fault

/-!
# Arithmetics

The engine computes with constants and compares them through an arithmetic: a
record of the operations, the named functions and the tolerance tests.  An
expression is evaluated in an arithmetic under bindings of its variables and an
environment of further functions.
-/

namespace ExprCalculus

/-- A function that calls refer to by name. -/
inductive NamedFunction (α : Type) where
  | one (apply : α → Except (EvaluationFault α) α)
  | two (apply : α → α → Except (EvaluationFault α) α)

namespace NamedFunction

variable {α : Type}

def arity : NamedFunction α → Nat
  | one _ => 1
  | two _ => 2

/-- The value of the function at a list of arguments, which must have the right
length.  The name serves the fault of a wrong length. -/
def apply (name : String) :
    NamedFunction α → List α → Except (EvaluationFault α) α
  | one function, [argument] => function argument
  | two function, [first, second] => function first second
  | function, arguments =>
      .error (.wrongArity name function.arity arguments.length)

end NamedFunction

/-- How constants of type `α` are computed with and compared.  Two constants are near if they
differ by less than the tolerance, apart if they differ by at least the tolerance, and the
same if they count as one constant.  Named functions have lower-case names. -/
structure Arithmetic (α : Type) where
  ofInt : Int → α
  euler : α
  neg : α → α
  sqrt : α → α
  binary : BinaryOperator → α → α → α
  unary : UnaryOperator → α → Except (EvaluationFault α) α
  named? : String → Option (NamedFunction α)
  near : α → α → Bool
  apart : α → α → Bool
  same : α → α → Bool
  isFinite : α → Bool
  isZero : α → Bool
  isNegative : α → Bool
  isPositive : α → Bool

namespace Arithmetic

variable {α : Type} (arithmetic : Arithmetic α)

def zero : α :=
  arithmetic.ofInt 0

def one : α :=
  arithmetic.ofInt 1

def add : α → α → α :=
  arithmetic.binary .add

def mul : α → α → α :=
  arithmetic.binary .multiply

def div : α → α → α :=
  arithmetic.binary .divide

def sameExpr : Expr α → Expr α → Bool :=
  Expr.sameBy arithmetic.same

/-- Whether an expression is a constant within the tolerance of a number. -/
def isConst (value : α) : Expr α → Bool
  | .const other => arithmetic.near other value
  | _ => false

end Arithmetic

/-- Further functions by name, in the order in which they were supplied. -/
abbrev FunctionEnvironment (α : Type) :=
  List (String × (List α → Except (EvaluationFault α) α))

namespace FunctionEnvironment

variable {α : Type}

/-- The environment with one more function; a name supplied before keeps its
place. -/
def insert (environment : FunctionEnvironment α) (name : String)
    (function : List α → Except (EvaluationFault α) α) : FunctionEnvironment α :=
  if environment.any (·.1 = name) then
    environment.map fun entry => if entry.1 = name then (name, function) else entry
  else
    environment ++ [(name, function)]

/-- The function of a name: the one supplied under exactly that name, or else
the first whose name differs from it in case only. -/
def lookup? (environment : FunctionEnvironment α) (name : String) :
    Option (List α → Except (EvaluationFault α) α) :=
  let exactly := environment.find? (·.1 = name)
  let inAnyCase := environment.find? fun entry =>
    Text.toLower entry.1 = Text.toLower name
  (exactly.or inAnyCase).map (·.2)

end FunctionEnvironment

namespace Arithmetic

variable {α : Type} (arithmetic : Arithmetic α)

/-- The value of the function of a given name: a named function of the
arithmetic, or else one of the environment. -/
def callByName (functions : FunctionEnvironment α) (name : String)
    (arguments : List α) : Except (EvaluationFault α) α :=
  match arithmetic.named? (Text.toLower name) with
  | some function => function.apply name arguments
  | none =>
      match functions.lookup? name with
      | some function => function arguments
      | none => .error (.undefinedFunction name)

end Arithmetic

namespace Expr

variable {α : Type}

mutual

/-- The value of an expression, operands before operators and from left to
right. -/
def evaluate (arithmetic : Arithmetic α) (functions : FunctionEnvironment α)
    (bindings : String → Option α) : Expr α → Except (EvaluationFault α) α
  | const value => .ok value
  | var name =>
      match bindings name with
      | some value => .ok value
      | none => .error (.undefinedVariable name)
  | unary operator operand => do
      let value ← operand.evaluate arithmetic functions bindings
      arithmetic.unary operator value
  | binary operator left right => do
      let leftValue ← left.evaluate arithmetic functions bindings
      let rightValue ← right.evaluate arithmetic functions bindings
      return arithmetic.binary operator leftValue rightValue
  | call name first others => do
      let value ← first.evaluate arithmetic functions bindings
      let values ← evaluateAll arithmetic functions bindings others
      arithmetic.callByName functions name (value :: values)
  | integral integrand _ => .error (.unknownIntegral integrand)

def evaluateAll (arithmetic : Arithmetic α) (functions : FunctionEnvironment α)
    (bindings : String → Option α) :
    List (Expr α) → Except (EvaluationFault α) (List α)
  | [] => .ok []
  | expression :: rest => do
      let value ← expression.evaluate arithmetic functions bindings
      let values ← evaluateAll arithmetic functions bindings rest
      return value :: values

end

/-- The value of an expression without bindings and without further functions. -/
def closedValue (arithmetic : Arithmetic α) (expression : Expr α) :
    Except (EvaluationFault α) α :=
  expression.evaluate arithmetic [] fun _ => none

end Expr

end ExprCalculus
