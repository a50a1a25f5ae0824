import ExprCalculus.Evaluation.Fault
import ExprCalculus.Text.UpperCase

/-!
# Notices

What the engine reports while it works: which operation starts, where a rule
does not apply, and what was passed over.  A notice holds the expressions it is
about; its text is formed only when it is delivered.
-/

namespace ExprCalculus

/-- Why an expression has no derivative. -/
inductive Refusal (α : Type) where
  | operator (expression : Expr α)
  | manyArguments (count : Nat) (name : String)
  | function (name : String)

namespace Refusal

def description (settings : Settings) : Refusal Float → String
  | operator expression =>
      let text := expression.render settings
      s!"'{text}'"
  | manyArguments count name => s!"{count}-argument function '{name}'"
  | function name => s!"function '{name}'"

def message (settings : Settings) (refusal : Refusal Float) : String :=
  refusal.description settings ++ " is not differentiable"

end Refusal

/-- Why an integral is left as it is. -/
inductive IntegralGap where
  | noRule
  | manyArguments
  | exponent
  | product
  | numerator
  | denominator
  | factorial
  | function (name : String)
  | argument (name : String)
deriving DecidableEq, Repr

namespace IntegralGap

def reason : IntegralGap → String
  | noRule => "no matching rule"
  | manyArguments => "multi-argument function"
  | exponent => "power with non-constant exponent"
  | product => "product outside the parts patterns"
  | numerator => "quotient with non-unit numerator"
  | denominator => "denominator is neither a*x+b nor x^2+c"
  | factorial => "no antiderivative for factorial"
  | function name => s!"'{name}' is not in the antiderivative table"
  | argument name => s!"argument of '{name}' is not affine"

end IntegralGap

/-- A report of the engine about expressions over constants of type `α`. -/
inductive Notice (α : Type) where
  | parsing (text : String)
  | furtherFunction (name : String) (count : Nat)
  | foldingSkipped (expression : Expr α) (fault : EvaluationFault α)
  | differentiating (expression : Expr α) (name : String)
  | refused (name : String) (refusal : Refusal α)
  | integrating (expression : Expr α) (name : String)
  | integralLeft (expression : Expr α) (name : String) (gap : IntegralGap)
  | factoring (expression : Expr α)
  | nothingToFactor (expression : Expr α)
  | noFactorization (expression : Expr α)
  | substitutedBound (replacement : Expr α) (name : String)

/-- How much is reported, from nothing to everything. -/
inductive Verbosity where
  | silent
  | minimal
  | moderate
  | detailed
  | verbose
deriving DecidableEq, Repr

namespace Verbosity

/-- The rank of a verbosity; a higher rank reports more. -/
def rank : Verbosity → Nat
  | silent => 0
  | minimal => 1
  | moderate => 2
  | detailed => 3
  | verbose => 4

/-- Whether a report that needs the second verbosity is admitted at the first. -/
def admits (current needed : Verbosity) : Bool :=
  needed.rank ≤ current.rank

end Verbosity

/-- A line for the journal: its label, its text and the verbosity it needs. -/
structure Report where
  label : String
  text : String
  needed : Verbosity
deriving DecidableEq, Repr

namespace Report

def info (text : String) (needed : Verbosity) : Report :=
  ⟨"INFO", text, needed⟩

def warning (text : String) : Report :=
  ⟨"WARNING", text, .minimal⟩

def fallback (operation text : String) : Report :=
  ⟨"INFO", Text.toUpper operation ++ ": " ++ text, .detailed⟩

def debug (text : String) : Report :=
  ⟨"DEBUG", "DEBUG: " ++ text, .verbose⟩

def line (report : Report) : String :=
  report.label ++ " - " ++ report.text

end Report

namespace Notice

def report (settings : Settings) : Notice Float → Report
  | parsing text => .info s!"Parsing '{text}'" .verbose
  | furtherFunction name count =>
      .debug s!"Parsed call to non-keyword function '{name}' with {count} argument(s)"
  | foldingSkipped expression fault =>
      let text := expression.render settings
      let reason := (fault.message? settings).getD ""
      .debug s!"Constant folding skipped for {text}: {reason}"
  | differentiating expression name =>
      let text := expression.render settings
      .info s!"Differentiating {text} w.r.t. {name}" .verbose
  | refused name refusal =>
      let description := refusal.description settings
      .debug s!"Differentiation w.r.t. {name} refused: {description}"
  | integrating expression name =>
      let text := expression.render settings
      .info s!"Integrating {text} w.r.t. {name}" .verbose
  | integralLeft expression name gap =>
      let text := expression.render settings
      .fallback "integrate" s!"{text} d{name}: {gap.reason}"
  | factoring expression =>
      let text := expression.render settings
      .info s!"Factoring {text}" .verbose
  | nothingToFactor expression =>
      let text := expression.render settings
      .fallback "factor" s!"nothing to factor in {text}"
  | noFactorization expression =>
      let text := expression.render settings
      .fallback "factor" s!"no factorization found for {text}"
  | substitutedBound replacement name =>
      let text := replacement.render settings
      .warning
        s!"Substituting {text} for integration variable '{name}' of an unsupported integral"

end Notice

end ExprCalculus
