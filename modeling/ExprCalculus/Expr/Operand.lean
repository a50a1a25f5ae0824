import ExprCalculus.Expr.Parser

/-!
# Operands

A caller who builds an expression may offer a text, an expression or a number
where an expression is expected; a truth value or nothing at all is refused.
-/

namespace ExprCalculus

/-- What a caller offers where an expression is expected. -/
inductive Operand where
  | text (text : String)
  | tree (tree : Expr Float)
  | double (value : Float)
  | whole (value : Int)
  | truth (value : Bool)
  | nothing
deriving Repr

/-- Why an operand is refused. -/
inductive OperandError where
  | reading (error : ReadError)
  | notConvertible (operand : Operand)
  | notATree (operand : Operand)
  | misplaced
  | tooLarge

namespace OperandError

def message? (kindName : Operand → String) : OperandError → Option String
  | notConvertible operand =>
      some ("Cannot convert " ++ kindName operand ++ " to an expression node")
  | notATree operand =>
      some ("Expression root must be a Node, got " ++ kindName operand)
  | _ => none

end OperandError

namespace Operand

def toExpr : Operand → Traced (Notice Float) OperandError (Expr Float)
  | text source => (Expr.ofText source).mapFault .reading
  | tree expression => pure expression
  | double value => pure (.const value)
  | whole value =>
      match Binary64.ofInt? value with
      | some number => pure (.const number)
      | none => .fail .tooLarge
  | truth value => .fail (.notConvertible (truth value))
  | nothing => .fail (.notConvertible nothing)

/-- The expression that an operand is or denotes; a number is neither. -/
def toTree : Operand → Traced (Notice Float) OperandError (Expr Float)
  | text source => (Expr.ofText source).mapFault .reading
  | tree expression => pure expression
  | operand => .fail (.notATree operand)

/-- An operator between an expression and an operand after it. -/
def after (operator : BinaryOperator) (left : Expr Float) (right : Operand) :
    Traced (Notice Float) OperandError (Expr Float) := do
  let other ← right.toExpr
  return .binary operator left other

/-- An operator between an operand and an expression after it. -/
def before (operator : BinaryOperator) (left : Operand) (right : Expr Float) :
    Traced (Notice Float) OperandError (Expr Float) := do
  let other ← left.toExpr
  return .binary operator other right

/-- An operator between an operand and an expression after it, where only an
expression may come first. -/
def treeBefore (operator : BinaryOperator) (left : Operand) (right : Expr Float) :
    Traced (Notice Float) OperandError (Expr Float) :=
  match left with
  | tree expression => pure (.binary operator expression right)
  | _ => .fail .misplaced

end Operand

end ExprCalculus
