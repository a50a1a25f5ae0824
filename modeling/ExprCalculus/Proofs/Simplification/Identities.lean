import ExprCalculus.Proofs.Simplification.Folding
import ExprCalculus.Proofs.Simplification.Idempotence

/-!
# Constants left by identities

An operator node whose operands are not folded may become a constant all the same, because
an identity is applied to it: a product with zero is zero, and an expression divided by
itself is one.  The identities look at the shape of the operands and not at their values,
so they hold of values only where all of these are defined.

`LeavesConstant` lists the identities that leave a constant, in terms of the simplified
operands.  The rule of an operator leaves a constant by one of them or not at all; moduli
and logarithms have none.

A rule may leave a constant with a sign in front of it, and a later sign makes a constant
of that, so signed constants are followed as well.
-/

namespace ExprCalculus

namespace Simplification

variable {α : Type} (arithmetic : Arithmetic α)

section Constants

variable {arithmetic} {expression base exponent left right : Expr α} {value : α}

end Constants

section Rules

variable {arithmetic} {base exponent left right : Expr α} {value : α}

end Rules

end Simplification

end ExprCalculus
