import ExprCalculus.Decimal.Literal
import ExprCalculus.Settings

/-!
# Tokens

Expression text is read as a sequence of tokens: numbers, names, operator signs,
parentheses, commas and factorial marks, closed by an end token.  A token keeps
the text it was read from and its offset in characters.
-/

namespace ExprCalculus

/-- The classes of tokens. -/
inductive Token.Kind where
  | number
  | identifier
  | constant
  | function
  | operator
  | leftParenthesis
  | rightParenthesis
  | comma
  | factorial
  | finish
deriving DecidableEq, Repr

/-- A token with its text and the offset of its first character. -/
structure Token where
  kind : Token.Kind
  text : String
  position : Int
deriving DecidableEq, Repr

namespace Token

namespace Kind

def name : Kind → String
  | number => "NUMBER"
  | identifier => "IDENTIFIER"
  | constant => "CONSTANT"
  | function => "FUNCTION"
  | operator => "OPERATOR"
  | leftParenthesis => "LEFT_PAREN"
  | rightParenthesis => "RIGHT_PAREN"
  | comma => "COMMA"
  | factorial => "FACTORIAL"
  | finish => "END"

def all : List Kind :=
  [number, identifier, constant, function, operator, leftParenthesis,
    rightParenthesis, comma, factorial, finish]

def ofName? (word : String) : Option Kind :=
  all.find? (·.name = word)

end Kind

def description (token : Token) : String :=
  token.kind.name ++ ": " ++ token.text

/-- Whether the token is an operator sign, and one of the listed ones if any
are listed. -/
def isOperator (token : Token) (symbols : List String) : Bool :=
  token.kind = .operator && (symbols.isEmpty || symbols.contains token.text)

def functionWords : List String :=
  ["sin", "cos", "tan", "asin", "arcsin", "acos", "arccos", "atan", "arctan",
    "sinh", "cosh", "tanh", "exp", "ln", "log", "log10", "sqrt", "abs", "floor",
    "ceil", "ceiling", "round", "sign", "min", "max", "pow", "factorial"]

def constantValue? : String → Option Float
  | "pi" => some piConstant
  | "π" => some piConstant
  | "e" => some eulerConstant
  | "tau" => some (2.0 * piConstant)
  | "τ" => some (2.0 * piConstant)
  | "phi" => some ((1.0 + Float.sqrt 5.0) / 2.0)
  | "φ" => some ((1.0 + Float.sqrt 5.0) / 2.0)
  | _ => none

end Token

/-- Why a text cannot be read as tokens. -/
inductive LexError where
  | noText
  | unexpected (character : Char) (position : Nat)
  | invalidNumber (literal : String) (position : Nat)
deriving DecidableEq, Repr

namespace LexError

def text : LexError → String
  | noText => ""
  | unexpected character _ => character.toString
  | invalidNumber literal _ => literal

/-- The offset of that part, or -1 without a text. -/
def position : LexError → Int
  | noText => -1
  | unexpected _ position => position
  | invalidNumber _ position => position

def message : LexError → String
  | noText => "Input cannot be None"
  | unexpected character position =>
      s!"Unexpected character '{character}' at position {position}"
  | invalidNumber literal position =>
      s!"Invalid number format '{literal}' at position {position}"

end LexError

end ExprCalculus
