import ExprCalculus.Expr.Basic

/-!
# Walking over expressions

The subexpressions of an expression are listed level by level, or each before
those below it.  Both walks keep the subexpressions still to be visited in a
list; the number of nodes in that list decreases with every step.
-/

namespace ExprCalculus

namespace Expr

variable {α : Type}

theorem sizeAll_append (first second : List (Expr α)) :
    sizeAll (first ++ second) = sizeAll first + sizeAll second := by
  induction first with
  | nil => simp [sizeAll]
  | cons expression rest ih => simp [sizeAll, ih]; omega

theorem sizeAll_children_lt (expression : Expr α) :
    sizeAll expression.children < expression.size := by
  cases expression <;> simp only [children, sizeAll, size] <;> omega

/-- The subexpressions of the expressions in a queue, level by level. -/
def levelOrder : List (Expr α) → List (Expr α)
  | [] => []
  | expression :: queue => expression :: levelOrder (queue ++ expression.children)
termination_by queue => sizeAll queue
decreasing_by
  have := sizeAll_children_lt expression
  simp only [sizeAll_append, sizeAll]
  omega

/-- The subexpressions of the expressions on a stack, each before those below
it, from left to right. -/
def preorder : List (Expr α) → List (Expr α)
  | [] => []
  | expression :: stack => expression :: preorder (expression.children ++ stack)
termination_by stack => sizeAll stack
decreasing_by
  have := sizeAll_children_lt expression
  simp only [sizeAll_append, sizeAll]
  omega

def anyBelow (property : Expr α → Bool) : List (Expr α) → Bool
  | [] => false
  | expression :: stack =>
      property expression || anyBelow property (expression.children.reverse ++ stack)
termination_by stack => sizeAll stack
decreasing_by
  have total := sizeAll_children_lt expression
  have reversed : sizeAll expression.children.reverse = sizeAll expression.children := by
    induction expression.children with
    | nil => rfl
    | cons child rest ih =>
        simp only [List.reverse_cons, sizeAll_append, sizeAll, ih]
        omega
  simp only [sizeAll_append, sizeAll]
  omega

/-- The orders in which subexpressions are listed. -/
inductive Order where
  | breadthFirst
  | depthFirst
deriving DecidableEq, Repr

def Order.ofName? : String → Option Order
  | "breadth_first" => some breadthFirst
  | "depth_first" => some depthFirst
  | _ => none

def subexpressions (expression : Expr α) : Order → List (Expr α)
  | .breadthFirst => levelOrder [expression]
  | .depthFirst => preorder [expression]

/-- The subexpressions with a property, level by level. -/
def select (expression : Expr α) (property : Expr α → Bool) : List (Expr α) :=
  (expression.subexpressions .breadthFirst).filter property

def contains (expression : Expr α) (property : Expr α → Bool) : Bool :=
  anyBelow property [expression]

def isUnary (operator : UnaryOperator) : Expr α → Bool
  | unary other _ => other = operator
  | _ => false

def isBinary (operator : BinaryOperator) : Expr α → Bool
  | binary other _ _ => other = operator
  | _ => false

/-- Whether the root is a call of the function with the given name, in any case. -/
def isCallOf (name : String) : Expr α → Bool
  | call other _ _ => other = Text.toLower name
  | _ => false

def constants (expression : Expr α) : List α :=
  (expression.subexpressions .breadthFirst).filterMap fun
    | const value => some value
    | _ => none

def usage (expression : Expr α) : List (String × Nat) :=
  let names := (expression.subexpressions .breadthFirst).filterMap fun
    | var name => some name
    | _ => none
  names.eraseDups.mergeSort.map fun name => (name, names.count name)

end Expr

end ExprCalculus
