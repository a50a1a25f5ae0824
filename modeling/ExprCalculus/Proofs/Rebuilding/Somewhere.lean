import ExprCalculus.Proofs.Rebuilding.Calculus

/-!
# Properties of some part of an expression

What goes wrong in an expression goes wrong at one of its nodes.  If it only goes wrong at
factorials and at calls of functions other than the reciprocal ones, then it goes wrong in
a derivative or in an antiderivative only where it does in the expression.
-/

namespace ExprCalculus

namespace Expr

variable {α : Type}

/-- An expression or some part of it has a property. -/
inductive Somewhere (holds : Expr α → Prop) : Expr α → Prop
  | here {expression : Expr α} (given : holds expression) : Somewhere holds expression
  | inside {parent child : Expr α} (below : child ∈ parent.children)
      (found : Somewhere holds child) : Somewhere holds parent

section Nodes

variable {holds : Expr α → Prop} {expression operand left right first : Expr α}
  {others : List (Expr α)}

theorem Somewhere.inOperand (found : Somewhere holds operand) (operator : UnaryOperator) :
    Somewhere holds (.unary operator operand) :=
  .inside List.mem_cons_self found

theorem Somewhere.inLeft (found : Somewhere holds left) (operator : BinaryOperator)
    (right : Expr α) : Somewhere holds (.binary operator left right) :=
  .inside List.mem_cons_self found

theorem Somewhere.inRight (found : Somewhere holds right) (operator : BinaryOperator)
    (left : Expr α) : Somewhere holds (.binary operator left right) :=
  .inside (List.mem_cons_of_mem _ List.mem_cons_self) found

theorem Somewhere.mono {other : Expr α → Prop} (found : Somewhere holds expression)
    (implies : ∀ part, holds part → other part) : Somewhere other expression := by
  induction found with
  | here given => exact .here (implies _ given)
  | inside below _ ih => exact .inside below ih

/-- A property holds somewhere if it holds of the expression or somewhere below. -/
theorem somewhere_iff : Somewhere holds expression ↔
    holds expression ∨ ∃ child ∈ expression.children, Somewhere holds child := by
  constructor
  · intro found
    cases found with
    | here given => exact .inl given
    | inside below found => exact .inr ⟨_, below, found⟩
  · rintro (given | ⟨child, below, found⟩)
    · exact .here given
    · exact .inside below found

theorem somewhere_const {value : α} :
    Somewhere holds (.const value) ↔ holds (.const value) := by
  rw [somewhere_iff]
  simp [children]

theorem somewhere_var {name : String} :
    Somewhere holds (.var name) ↔ holds (.var name) := by
  rw [somewhere_iff]
  simp [children]

theorem somewhere_unary {operator : UnaryOperator} :
    Somewhere holds (.unary operator operand) ↔
      holds (.unary operator operand) ∨ Somewhere holds operand := by
  rw [somewhere_iff]
  simp [children]

theorem somewhere_binary {operator : BinaryOperator} :
    Somewhere holds (.binary operator left right) ↔
      holds (.binary operator left right) ∨ Somewhere holds left ∨ Somewhere holds right := by
  rw [somewhere_iff]
  simp [children]

theorem somewhere_call {name : String} :
    Somewhere holds (.call name first others) ↔
      holds (.call name first others) ∨ Somewhere holds first ∨
        ∃ other ∈ others, Somewhere holds other := by
  rw [somewhere_iff]
  simp [children]

theorem somewhere_integral {name : String} :
    Somewhere holds (.integral operand name) ↔
      holds (.integral operand name) ∨ Somewhere holds operand := by
  rw [somewhere_iff]
  simp [children]

end Nodes

def IsDemanding : Expr α → Prop
  | unary .factorial _ => True
  | call name _ _ => name ∉ ["sec", "csc", "cot"]
  | _ => False

/-- What holds of demanding nodes only holds somewhere in a derivative or antiderivative
only if it holds somewhere in the expression. -/
theorem calculating_somewhere {holds : Expr α → Prop}
    (demanding : ∀ expression, holds expression → IsDemanding expression) (conclusion : Prop) :
    Calculating fun expression => Somewhere holds expression → conclusion where
  const value found := (demanding _ (somewhere_const.mp found)).elim
  negate given found :=
    given ((somewhere_unary.mp found).resolve_left fun plain => demanding _ plain)
  binary operator leftGiven rightGiven found :=
    ((somewhere_binary.mp found).resolve_left fun plain => demanding _ plain).elim
      leftGiven rightGiven
  child given _ below found := given (.inside below found)
  unary proper given found := by
    refine given ((somewhere_unary.mp found).resolve_left fun plain => ?_)
    have isFactorial := demanding _ plain
    unfold IsDemanding at isFactorial
    split at isFactorial
    next same =>
      cases same
      exact proper rfl
    next same => cases same
    next => exact isFactorial
  reciprocal listed given found := by
    rcases somewhere_call.mp found with plain | inOperand | ⟨other, member, -⟩
    · exact absurd listed (demanding _ plain)
    · exact given inOperand
    · cases member
  integral given _ found :=
    given ((somewhere_integral.mp found).resolve_left fun plain => demanding _ plain)
  bound _ found := (demanding _ (somewhere_var.mp found)).elim

end Expr

end ExprCalculus
