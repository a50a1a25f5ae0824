import ExprCalculus.Evaluation.Arithmetic

/-!
# Like terms

A sum, difference or negation is a list of terms, each a coefficient and a base;
the constant term has no base.  Terms with the same base are merged in the order
in which the bases are found, and terms whose coefficient is within the tolerance
of zero are dropped.  `collect` goes to this form and back.
-/

namespace ExprCalculus

/-- A multiple of a base, or a constant if there is no base. -/
structure Term (α : Type) where
  coefficient : α
  base? : Option (Expr α)

namespace Term

variable {α : Type} (arithmetic : Arithmetic α)

def ofExpr : Expr α → Term α
  | .const value => ⟨value, none⟩
  | .binary .multiply (.const value) right =>
      let term := ofExpr right
      ⟨arithmetic.mul value term.coefficient, term.base?⟩
  | .binary .multiply left (.const value) =>
      let term := ofExpr left
      ⟨arithmetic.mul value term.coefficient, term.base?⟩
  | .unary .negate operand =>
      let term := ofExpr operand
      ⟨arithmetic.neg term.coefficient, term.base?⟩
  | expression => ⟨arithmetic.one, some expression⟩

theorem size_base_ofExpr_le {expression base : Expr α}
    (found : (ofExpr arithmetic expression).base? = some base) :
    base.size ≤ expression.size := by
  fun_induction ofExpr arithmetic expression with
  | case1 => simp at found
  | case2 value right term ih =>
      have := ih found
      simp only [Expr.size]
      omega
  | case3 left value notConst term ih =>
      have := ih found
      simp only [Expr.size]
      omega
  | case4 operand term ih =>
      have := ih found
      simp only [Expr.size]
      omega
  | case5 expression =>
      simp only [Option.some.injEq] at found
      exact Nat.le_of_eq (congrArg Expr.size found.symm)

def isSum : Expr α → Bool
  | .binary .add _ _ => true
  | .binary .subtract _ _ => true
  | .unary .negate _ => true
  | _ => false

theorem size_base_ofExpr_lt {expression base : Expr α}
    (found : (ofExpr arithmetic expression).base? = some base)
    (sum : isSum base) (notSum : ¬ isSum expression) :
    base.size < expression.size := by
  fun_induction ofExpr arithmetic expression with
  | case1 => simp at found
  | case2 value right term ih =>
      have := size_base_ofExpr_le arithmetic found
      simp only [Expr.size]
      omega
  | case3 left value notConst term ih =>
      have := size_base_ofExpr_le arithmetic found
      simp only [Expr.size]
      omega
  | case4 operand => simp [isSum] at notSum
  | case5 expression =>
      simp only [Option.some.injEq] at found
      exact absurd (found ▸ sum) notSum

/-- The terms of an expression multiplied by a factor, in order and unmerged.  A
multiple of a sum contributes the multiples of the terms of the sum. -/
def flatten (scale : α) : Expr α → List (Term α)
  | .binary .add left right => flatten scale left ++ flatten scale right
  | .binary .subtract left right =>
      flatten scale left ++ flatten (arithmetic.neg scale) right
  | .unary .negate operand => flatten (arithmetic.neg scale) operand
  | expression =>
      let coefficient := (ofExpr arithmetic expression).coefficient
      match found : (ofExpr arithmetic expression).base? with
      | none => [⟨arithmetic.mul scale coefficient, none⟩]
      | some base =>
          if sum : isSum base ∧ ¬ isSum expression then
            have := size_base_ofExpr_lt arithmetic found sum.1 sum.2
            flatten (arithmetic.mul scale coefficient) base
          else
            [⟨arithmetic.mul scale coefficient, some base⟩]
termination_by expression => expression.size
decreasing_by
  all_goals first
    | assumption
    | (simp only [Expr.size]; omega)

/-- Whether two terms have the same base, or neither has one. -/
def sameBase : Option (Expr α) → Option (Expr α) → Bool
  | none, none => true
  | some first, some second => arithmetic.sameExpr first second
  | _, _ => false

/-- Adds a term to the first of a list with the same base, or at the end. -/
def insert (terms : List (Term α)) (term : Term α) : List (Term α) :=
  match terms with
  | [] => [term]
  | first :: rest =>
      if sameBase arithmetic first.base? term.base? then
        ⟨arithmetic.add first.coefficient term.coefficient, first.base?⟩ :: rest
      else
        first :: insert rest term

/-- The terms with like bases merged and vanishing terms dropped. -/
def merge (terms : List (Term α)) : List (Term α) :=
  (terms.foldl (insert arithmetic) []).filter fun term =>
    arithmetic.apart term.coefficient arithmetic.zero

def split (expression : Expr α) : List (Term α) :=
  merge arithmetic (flatten arithmetic arithmetic.one expression)

/-- A term as an expression; the coefficients one and minus one are not written. -/
def toExpr (coefficient : α) : Option (Expr α) → Expr α
  | none => .const coefficient
  | some base =>
      if arithmetic.near coefficient arithmetic.one then
        base
      else if arithmetic.near coefficient (arithmetic.ofInt (-1)) then
        -base
      else
        .const coefficient * base

/-- An expression with a term added to it; a negative coefficient is subtracted. -/
def appendTo (sum : Expr α) (term : Term α) : Expr α :=
  if arithmetic.isNegative term.coefficient then
    sum - toExpr arithmetic (arithmetic.neg term.coefficient) term.base?
  else
    sum + toExpr arithmetic term.coefficient term.base?

def join : List (Term α) → Expr α
  | [] => .const arithmetic.zero
  | first :: rest =>
      rest.foldl (appendTo arithmetic) (toExpr arithmetic first.coefficient first.base?)

def collect (expression : Expr α) : Expr α :=
  join arithmetic (split arithmetic expression)

end Term

end ExprCalculus
