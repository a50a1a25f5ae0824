import ExprCalculus.Expr.Basic
import ExprCalculus.Settings
import ExprCalculus.Binary64.Rounding

/-!
# Printing expressions

An expression is written with as few parentheses as the precedences of its
operators allow: an operand is enclosed when it binds less tightly than its
place demands.  Every constant is written so that it reads back to the same
number; a constant that no literal denotes is written as a quotient or a signed
zero in parentheses.
-/

namespace ExprCalculus

namespace Expr

def constantText (settings : Settings) (value : Float) : String :=
  if value.isNaN then
    "(0/0)"
  else if value.isInf then
    (if 0.0 < value then "(1/0)" else "(-1/0)")
  else if value == 0.0 && Binary64.signBit value then
    "(-0)"
  else if settings.near value piConstant then
    "pi"
  else if settings.near value eulerConstant then
    "e"
  else
    match Binary64.toRat? value with
    | some number =>
        if number.den = 1 && value.abs < 1e16 then
          toString number.num
        else
          Decimal.text value
    | none => Decimal.text value

/-- How tightly the form at the root of an expression binds.  A negative
constant binds like a negation. -/
def precedence : Expr Float → Precedence
  | const value => if value.isFinite && value < 0.0 then .unary else .atom
  | var _ => .atom
  | unary operator _ => operator.precedence
  | binary operator _ _ => operator.precedence
  | call _ _ _ => .atom
  | integral _ _ => .atom

def parenthesizedIf (condition : Bool) (text : String) : String :=
  if condition then "(" ++ text ++ ")" else text

/-- Whether the left operand of an operator is enclosed.  A power groups to the
right, so a power on its left is enclosed. -/
def enclosesLeft (operator : BinaryOperator) (left : Precedence) : Bool :=
  if operator = .power then
    left ≤ operator.precedence
  else
    left < operator.precedence

/-- Whether the right operand of an operator is enclosed.  All operators but
the power group to the left, so an equal precedence on their right is enclosed. -/
def enclosesRight (operator : BinaryOperator) (right : Precedence) : Bool :=
  if operator = .power then
    right < operator.precedence
  else
    right ≤ operator.precedence

mutual

def render (settings : Settings) : Expr Float → String
  | const value => constantText settings value
  | var name => name
  | unary operator operand =>
      let text := render settings operand
      match operator with
      | .negate => "-" ++ parenthesizedIf (operand.precedence ≤ .unary) text
      | .factorial => parenthesizedIf (operand.precedence < .atom) text ++ "!"
      | _ => operator.word?.getD "" ++ "(" ++ text ++ ")"
  | binary operator left right =>
      match operator.symbol? with
      | none => "log(" ++ render settings left ++ ", " ++ render settings right ++ ")"
      | some symbol =>
          let leftText :=
            parenthesizedIf (enclosesLeft operator left.precedence) (render settings left)
          let rightText :=
            parenthesizedIf (enclosesRight operator right.precedence) (render settings right)
          if operator = .power then
            leftText ++ symbol ++ rightText
          else
            leftText ++ " " ++ symbol ++ " " ++ rightText
  | call name first others =>
      name ++ "(" ++ ", ".intercalate (render settings first :: renderAll settings others) ++ ")"
  | integral integrand name =>
      "integral(" ++ render settings integrand ++ ", " ++ name ++ ")"

def renderAll (settings : Settings) : List (Expr Float) → List String
  | [] => []
  | expression :: rest => render settings expression :: renderAll settings rest

end

end Expr

end ExprCalculus
