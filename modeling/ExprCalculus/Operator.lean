/-!
# Operators

The prefix, postfix and one-argument operators, and the operators between two
operands, with the words and symbols they are known by and how tightly they
bind.
-/

namespace ExprCalculus

/-- Operators on one operand. -/
inductive UnaryOperator where
  | negate
  | sin
  | cos
  | tan
  | asin
  | acos
  | atan
  | sinh
  | cosh
  | tanh
  | exp
  | ln
  | log10
  | sqrt
  | abs
  | floor
  | ceiling
  | round
  | sign
  | factorial
deriving DecidableEq, Repr

/-- Operators between two operands. -/
inductive BinaryOperator where
  | add
  | subtract
  | multiply
  | divide
  | power
  | modulo
  | logBase
deriving DecidableEq, Repr

/-- How tightly a form binds, from sums to forms that need no parentheses. -/
inductive Precedence where
  | additive
  | multiplicative
  | unary
  | power
  | postfixed
  | atom
deriving DecidableEq, Repr

namespace Precedence

/-- The rank of a precedence; a higher rank binds tighter. -/
def rank : Precedence → Nat
  | additive => 1
  | multiplicative => 2
  | unary => 3
  | power => 4
  | postfixed => 5
  | atom => 6

instance : LT Precedence where
  lt first second := first.rank < second.rank

instance : LE Precedence where
  le first second := first.rank ≤ second.rank

instance (first second : Precedence) : Decidable (first < second) :=
  inferInstanceAs (Decidable (first.rank < second.rank))

instance (first second : Precedence) : Decidable (first ≤ second) :=
  inferInstanceAs (Decidable (first.rank ≤ second.rank))

end Precedence

namespace UnaryOperator

def all : List UnaryOperator :=
  [negate, sin, cos, tan, asin, acos, atan, sinh, cosh, tanh, exp, ln, log10,
    sqrt, abs, floor, ceiling, round, sign, factorial]

def ofNumber? (number : Int) : Option UnaryOperator :=
  if number < 0 then none else all[number.toNat]?

/-- The words for the operators; some operators have two. -/
def ofWord? : String → Option UnaryOperator
  | "neg" => some negate
  | "sin" => some sin
  | "cos" => some cos
  | "tan" => some tan
  | "asin" => some asin
  | "arcsin" => some asin
  | "acos" => some acos
  | "arccos" => some acos
  | "atan" => some atan
  | "arctan" => some atan
  | "sinh" => some sinh
  | "cosh" => some cosh
  | "tanh" => some tanh
  | "exp" => some exp
  | "ln" => some ln
  | "log10" => some log10
  | "sqrt" => some sqrt
  | "abs" => some abs
  | "floor" => some floor
  | "ceil" => some ceiling
  | "ceiling" => some ceiling
  | "round" => some round
  | "sign" => some sign
  | "factorial" => some factorial
  | _ => none

/-- The word under which an operator is written as a function; the sign and the
factorial mark have none. -/
def word? : UnaryOperator → Option String
  | negate => none
  | sin => some "sin"
  | cos => some "cos"
  | tan => some "tan"
  | asin => some "asin"
  | acos => some "acos"
  | atan => some "atan"
  | sinh => some "sinh"
  | cosh => some "cosh"
  | tanh => some "tanh"
  | exp => some "exp"
  | ln => some "ln"
  | log10 => some "log10"
  | sqrt => some "sqrt"
  | abs => some "abs"
  | floor => some "floor"
  | ceiling => some "ceil"
  | round => some "round"
  | sign => some "sign"
  | factorial => none

def precedence : UnaryOperator → Precedence
  | negate => .unary
  | factorial => .postfixed
  | _ => .atom

end UnaryOperator

namespace BinaryOperator

def all : List BinaryOperator :=
  [add, subtract, multiply, divide, power, modulo, logBase]

def ofNumber? (number : Int) : Option BinaryOperator :=
  if number < 0 then none else all[number.toNat]?

def ofSymbol? : String → Option BinaryOperator
  | "+" => some add
  | "-" => some subtract
  | "*" => some multiply
  | "/" => some divide
  | "^" => some power
  | "%" => some modulo
  | _ => none

/-- The symbol of an operator; the logarithm to a base has none. -/
def symbol? : BinaryOperator → Option String
  | add => some "+"
  | subtract => some "-"
  | multiply => some "*"
  | divide => some "/"
  | power => some "^"
  | modulo => some "%"
  | logBase => none

def precedence : BinaryOperator → Precedence
  | add => .additive
  | subtract => .additive
  | multiply => .multiplicative
  | divide => .multiplicative
  | modulo => .multiplicative
  | power => .power
  | logBase => .atom

end BinaryOperator

end ExprCalculus
