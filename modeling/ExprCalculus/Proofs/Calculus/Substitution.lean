import ExprCalculus.Evaluation.Doubles
import ExprCalculus.Expr.Substitution
import ExprCalculus.Proofs.Calculus.Rules
import ExprCalculus.Proofs.Expansion.Distribution

/-!
# Differentiation and substitution

Substituting for another variable an expression that is free of the variable of
differentiation changes neither which parts mention that variable nor which rules apply.
The rules use their operands as they are, so an expression may be differentiated before or
after the substitution.
-/

namespace ExprCalculus

def Refusal.substitute {α : Type} (name : String) (replacement : Expr α) :
    Refusal α → Refusal α
  | .operator expression => .operator (Expr.substitute name replacement expression)
  | .manyArguments count called => .manyArguments count called
  | .function called => .function called

namespace Expr

variable {α : Type} {arithmetic : Arithmetic α} {name other : String} {replacement : Expr α}

/-- The derivative after a substitution in it, or the refusal after one. -/
def substituteOutcome (name : String) (replacement : Expr α) :
    Except (Refusal α) (Expr α) → Except (Refusal α) (Expr α)
  | .ok slope => .ok (substitute name replacement slope)
  | .error refusal => .error (refusal.substitute name replacement)

/-- A combination of two derivatives after a substitution in both. -/
theorem substituteOutcome_combined {first second : Except (Refusal α) (Expr α)}
    {combine substituted : Expr α → Expr α → Expr α}
    (commutes : ∀ one two, substitute other replacement (combine one two) =
      substituted (substitute other replacement one) (substitute other replacement two)) :
    (do
      let one ← substituteOutcome other replacement first
      let two ← substituteOutcome other replacement second
      return substituted one two) =
    substituteOutcome other replacement (do
      let one ← first
      let two ← second
      return combine one two) := by
  cases first with
  | error refusal => rfl
  | ok one =>
      cases second with
      | error refusal => rfl
      | ok two => exact congrArg Except.ok (commutes one two).symm

/-- A computation with one derivative after a substitution in it. -/
theorem substituteOutcome_bind {first : Except (Refusal α) (Expr α)}
    {next substituted : Expr α → Except (Refusal α) (Expr α)}
    (commutes : ∀ slope, substituted (substitute other replacement slope) =
      substituteOutcome other replacement (next slope)) :
    (substituteOutcome other replacement first >>= substituted) =
      substituteOutcome other replacement (first >>= next) := by
  cases first with
  | error refusal => rfl
  | ok slope => exact commutes slope

theorem length_substituteAll {expressions : List (Expr α)} :
    (substituteAll other replacement expressions).length = expressions.length := by
  induction expressions with
  | nil => rfl
  | cons expression rest ih => rw [substituteAll, List.length_cons, List.length_cons, ih]

section Rules

theorem substitute_derivativeRule {function : String} {rule : Expr α → Expr α → Expr α}
    (isRule : Derivative.rule? arithmetic function = some rule) (operand slope : Expr α) :
    substitute other replacement (rule operand slope) =
      rule (substitute other replacement operand) (substitute other replacement slope) := by
  unfold Derivative.rule? at isRule
  split at isRule <;> cases isRule <;> rfl

theorem derivativeUnary_substitute (operator : UnaryOperator) (operand slope : Expr α) :
    Derivative.unary arithmetic operator (substitute other replacement operand)
        (substitute other replacement slope) =
      substituteOutcome other replacement
        (Derivative.unary arithmetic operator operand slope) := by
  unfold Derivative.unary
  split
  · rfl
  split
  next rule isRule =>
    obtain ⟨word, -, isRule⟩ := Option.bind_eq_some_iff.mp isRule
    exact congrArg Except.ok (substitute_derivativeRule isRule operand slope).symm
  next => rfl

end Rules

section Mentions

/-- The variable of an unknown integral stays distinct from a variable that the replacement
does not mention. -/
theorem renamedBound_eq_iff (distinct : other ≠ name)
    (free : replacement.mentions name = false) (bound : String) :
    renamedBound other bound replacement = name ↔ bound = name := by
  unfold renamedBound
  split
  next renamed =>
    have notName : renamed ≠ name := of_decide_eq_false free
    split
    next isOther => exact iff_of_false notName (isOther ▸ distinct)
    next => rfl
  next => rfl

mutual

/-- A substitution for another variable of an expression free of a variable leaves that
variable where it is. -/
theorem mentions_substitute (distinct : other ≠ name)
    (free : replacement.mentions name = false) (expression : Expr α) :
    (substitute other replacement expression).mentions name = expression.mentions name := by
  match expression with
  | .const _ => rfl
  | .var present =>
      rw [substitute]
      split
      next isOther => rw [free, isOther, mentions, decide_eq_false distinct]
      next => rfl
  | .unary _ operand =>
      rw [substitute, mentions, mentions]
      exact mentions_substitute distinct free operand
  | .binary _ left right =>
      rw [substitute, mentions, mentions, mentions_substitute distinct free left,
        mentions_substitute distinct free right]
  | .call _ first others =>
      rw [substitute, mentions, mentions, mentions_substitute distinct free first,
        mentionsAny_substituteAll distinct free others]
  | .integral integrand bound =>
      have sameBound := renamedBound_eq_iff distinct free bound
      rw [substitute, mentions, mentions, mentions_substitute distinct free integrand,
        decide_eq_decide.mpr sameBound]

theorem mentionsAny_substituteAll (distinct : other ≠ name)
    (free : replacement.mentions name = false) (expressions : List (Expr α)) :
    mentionsAny name (substituteAll other replacement expressions) =
      mentionsAny name expressions := by
  match expressions with
  | [] => rfl
  | expression :: rest =>
      rw [substituteAll, mentionsAny, mentionsAny, mentions_substitute distinct free expression,
        mentionsAny_substituteAll distinct free rest]

end

theorem substitute_logarithm (distinct : other ≠ name)
    (free : replacement.mentions name = false) (operand slope : Expr α) :
    substitute other replacement (Derivative.logarithm arithmetic name operand slope) =
      Derivative.logarithm arithmetic name (substitute other replacement operand)
        (substitute other replacement slope) := by
  unfold Derivative.logarithm
  rw [mentions_substitute distinct free operand]
  split <;> rfl

end Mentions

section Derivatives

variable (distinct : other ≠ name) (free : replacement.mentions name = false)
include distinct free

/-- An operator between two operands may be differentiated before or after a substitution
if both operands may. -/
theorem derivative_substitute_binary {operator : BinaryOperator} {left right : Expr α}
    (leftCommutes : (substitute other replacement left).derivative arithmetic name =
      substituteOutcome other replacement (left.derivative arithmetic name))
    (rightCommutes : (substitute other replacement right).derivative arithmetic name =
      substituteOutcome other replacement (right.derivative arithmetic name)) :
    (substitute other replacement (binary operator left right)).derivative arithmetic name =
      substituteOutcome other replacement
        ((binary operator left right).derivative arithmetic name) := by
  rw [substitute]
  unfold derivative
  rw [mentions_substitute distinct free left, mentions_substitute distinct free right,
    leftCommutes, rightCommutes]
  split
  case isFalse => rfl
  case isTrue =>
    cases operator with
    | add | subtract | multiply | divide => exact substituteOutcome_combined fun _ _ => rfl
    | modulo => rfl
    | logBase =>
        refine substituteOutcome_combined fun first second => ?_
        rw [← substitute_logarithm distinct free, ← substitute_logarithm distinct free]
        rfl
    | power =>
        dsimp only
        split
        · exact substituteOutcome_combined fun _ _ => rfl
        · exact substituteOutcome_bind fun _ => rfl

/-- An expression may be differentiated before or after a substitution for another variable
of an expression free of the variable of differentiation. -/
theorem derivative_substitute (expression : Expr α) :
    (substitute other replacement expression).derivative arithmetic name =
      substituteOutcome other replacement (expression.derivative arithmetic name) := by
  match expression with
  | .const value => rfl
  | .var present =>
      rw [substitute]
      split
      next isOther =>
        rw [derivative_of_not_mentions free, derivative, if_neg (isOther ▸ distinct)]
        rfl
      next => rfl
  | .unary operator operand =>
      rw [substitute, derivative, derivative, mentions_substitute distinct free operand,
        derivative_substitute operand]
      split
      · exact substituteOutcome_bind (derivativeUnary_substitute operator operand)
      · rfl
  | .binary operator left right =>
      exact derivative_substitute_binary distinct free (derivative_substitute left)
        (derivative_substitute right)
  | .call function first [] =>
      rw [substitute, substituteAll, derivative, derivative, mentions_substitute distinct free first,
        derivative_substitute first]
      split
      case isFalse => rfl
      case isTrue =>
        split
        next rule isRule =>
          exact substituteOutcome_bind fun slope =>
            congrArg Except.ok (substitute_derivativeRule isRule first slope).symm
        next => rfl
  | .call function first (second :: others) =>
      rw [substitute, substituteAll, derivative, derivative, mentions_substitute distinct free first,
        mentionsAny, mentionsAny, mentions_substitute distinct free second,
        mentionsAny_substituteAll distinct free others, List.length_cons, length_substituteAll]
      split <;> rfl
  | .integral integrand bound =>
      rw [substitute, derivative, derivative, mentions_substitute distinct free integrand,
        derivative_substitute integrand]
      simp only [renamedBound_eq_iff distinct free bound]
      split
      · rfl
      split
      · exact substituteOutcome_bind fun _ => rfl
      · rfl

end Derivatives

end Expr

open ExprCalculus.Expr

/-- Differentiation commutes with substituting for another variable an expression that does
not mention the variable of differentiation: it is refused after the substitution exactly if
it is refused before, and otherwise the derivative after the substitution is the derivative
with the substitution made in it. -/
theorem derivative_commutes_with_substitution {α : Type} (arithmetic : Arithmetic α)
    {name other : String} (distinct : name ≠ other) {replacement : Expr α}
    (free : replacement.mentions name = false) (expression : Expr α) :
    ((∃ refusal,
        (substitute other replacement expression).derivative arithmetic name = .error refusal) ↔
      ∃ refusal, expression.derivative arithmetic name = .error refusal) ∧
    ∀ slope, expression.derivative arithmetic name = .ok slope →
      (substitute other replacement expression).derivative arithmetic name =
        .ok (substitute other replacement slope) := by
  rw [derivative_substitute distinct.symm free]
  cases expression.derivative arithmetic name with
  | ok slope =>
      refine ⟨⟨nofun, nofun⟩, ?_⟩
      rintro _ ⟨⟩
      rfl
  | error refusal => exact ⟨⟨fun _ => ⟨refusal, rfl⟩, fun _ => ⟨_, rfl⟩⟩, nofun⟩

/-- The variable of an unknown integral is renamed in its derivative as well. -/
theorem derivative_commutes_with_renaming :
    let arithmetic := Doubles.arithmetic .standard
    let product : Expr Float := .var "x" * .var "y"
    let slope : Expr Float := arithmetic.number 1 * .var "y" + .var "x" * arithmetic.number 0
    "x" ≠ "y" ∧ (Expr.var "z" : Expr Float).mentions "x" = false ∧
      (integral product "y").derivative arithmetic "x" = .ok (integral slope "y") ∧
      (substitute "y" (.var "z") (integral product "y")).derivative arithmetic "x" =
        .ok (substitute "y" (.var "z") (integral slope "y")) ∧
      substitute "y" (.var "z") (integral slope "y") =
        integral (arithmetic.number 1 * .var "z" + .var "x" * arithmetic.number 0) "z" :=
  ⟨by decide, rfl, rfl,
    (derivative_commutes_with_substitution _ (by decide) rfl _).2 _ rfl, rfl⟩

end ExprCalculus
