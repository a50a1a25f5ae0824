import ExprCalculus.Expr.Printer

/-!
# Evaluation faults

Why an expression has no value.  Most faults belong to the expression and its
bindings; the last few belong to the computation itself, and those are not
passed over when constants are folded.
-/

namespace ExprCalculus

/-- Why an expression over constants of type `α` has no value.  The last two are faults of
functions that a caller supplies. -/
inductive EvaluationFault (α : Type) where
  | undefinedVariable (name : String)
  | undefinedFunction (name : String)
  | wrongArity (name : String) (expected actual : Nat)
  | notWhole (function : String) (argument : α)
  | tooFewElements
  | tooLarge (function : String)
  | beyondLimit (argument : Nat) (limit : Int)
  | unknownIntegral (integrand : Expr α)
  | logGammaOverflow
  | argumentCount
  | missingArgument
deriving Inhabited

namespace EvaluationFault

/-- Whether the fault belongs to the expression, so that folding a constant
subexpression may pass over it. -/
def isOrdinary {α : Type} : EvaluationFault α → Bool
  | logGammaOverflow => false
  | argumentCount => false
  | missingArgument => false
  | _ => true

def message? (settings : Settings) : EvaluationFault Float → Option String
  | undefinedVariable name => some s!"Variable '{name}' is not defined"
  | undefinedFunction name => some s!"Function '{name}' is not defined"
  | wrongArity name expected actual =>
      some s!"Function '{name}' expects {expected} argument(s), got {actual}"
  | notWhole function argument =>
      let text := Decimal.text argument
      some s!"{function} is only defined for non-negative integers, got {text}"
  | tooFewElements => some "permutation requires k <= n"
  | tooLarge function => some s!"{function} result exceeds the float64 range"
  | beyondLimit argument limit =>
      some s!"factorial argument {argument} exceeds {limit}"
  | unknownIntegral integrand =>
      let text := integrand.render settings
      some s!"Cannot evaluate unsupported integral of {text}"
  | logGammaOverflow => none
  | argumentCount => none
  | missingArgument => none

end EvaluationFault

end ExprCalculus
