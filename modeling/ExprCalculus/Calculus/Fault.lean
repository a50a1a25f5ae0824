import ExprCalculus.Notice

/-!
# Faults of transformations

Why a transformation of an expression ends without a result.
-/

namespace ExprCalculus

/-- Why a computation with the numbers of a polynomial cannot go on.  A number is out of range
if it exceeds those it is converted to. -/
inductive NumericFault where
  | divisionByZero
  | outOfRange
  | undefinedNumber
  | negativeRoot
deriving DecidableEq, Repr

/-- Why a transformation ends without a result. -/
inductive TransformFault (α : Type) where
  | refused (refusal : Refusal α)
  | evaluation (fault : EvaluationFault α)
  | numeric (fault : NumericFault)
  | build (error : BuildError)

end ExprCalculus
