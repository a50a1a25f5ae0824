import ExprCalculus.Calculus.Antiderivative
import ExprCalculus.Calculus.Derivative
import ExprCalculus.Proofs.Outcomes

/-!
# Rules of differentiation and integration

What the derivative of a form is, given the derivatives of its parts.  A form that
does not mention the variable has derivative zero; otherwise the rule of its
operator applies.  The rules of the table of antiderivatives have no variables of their
own.
-/

namespace ExprCalculus

namespace Expr

variable {α : Type} {arithmetic : Arithmetic α} {name : String}

section Mentions

attribute [local simp] mentions occurrences isVar

mutual

theorem mem_occurrences_of_mentions {expression : Expr α}
    (mentioned : expression.mentions name = true) : name ∈ expression.occurrences := by
  match expression with
  | .const _ => cases mentioned
  | .var other => simp_all
  | .unary _ operand =>
      have inOperand : operand.mentions name = true := mentioned
      have member : name ∈ operand.occurrences := mem_occurrences_of_mentions inOperand
      exact member
  | .binary _ left right =>
      rcases Bool.or_eq_true_iff.mp mentioned with inLeft | inRight
      · exact List.mem_append_left _ (mem_occurrences_of_mentions inLeft)
      · exact List.mem_append_right _ (mem_occurrences_of_mentions inRight)
  | .call _ first others =>
      rcases Bool.or_eq_true_iff.mp mentioned with inFirst | inOthers
      · exact List.mem_append_left _ (mem_occurrences_of_mentions inFirst)
      · exact List.mem_append_right _ (mem_occurrencesAll_of_mentionsAny inOthers)
  | .integral integrand bound =>
      rcases Bool.or_eq_true_iff.mp mentioned with inIntegrand | isBound
      · exact List.mem_append_left _ (mem_occurrences_of_mentions inIntegrand)
      · simp_all

theorem mem_occurrencesAll_of_mentionsAny {expressions : List (Expr α)}
    (mentioned : mentionsAny name expressions = true) :
    name ∈ occurrencesAll expressions := by
  match expressions with
  | [] => cases mentioned
  | expression :: rest =>
      rcases Bool.or_eq_true_iff.mp mentioned with inFirst | inRest
      · exact List.mem_append_left _ (mem_occurrences_of_mentions inFirst)
      · exact List.mem_append_right _ (mem_occurrencesAll_of_mentionsAny inRest)

end

theorem not_mentions_of_isConstant {expression : Expr α}
    (isConstant : expression.isConstant = true) : expression.mentions name = false := by
  rw [Bool.eq_false_iff]
  intro mentioned
  have member := mem_occurrences_of_mentions mentioned
  rw [List.isEmpty_iff.mp isConstant] at member
  cases member

theorem eq_var_of_isVar {expression : Expr α} (isVar : expression.isVar name = true) :
    expression = .var name := by
  cases expression <;> simp_all

end Mentions

section Derivatives

attribute [local simp] mentions derivative

theorem derivative_of_not_mentions {expression : Expr α}
    (free : expression.mentions name = false) :
    expression.derivative arithmetic name = .ok (arithmetic.number 0) := by
  cases expression with
  | const value => rfl
  | var other => simp_all
  | unary operator operand => simp_all
  | binary operator left right => simp_all
  | call function first others => simp_all
  | integral integrand bound => simp_all

theorem derivative_var_self :
    (var name : Expr α).derivative arithmetic name = .ok (arithmetic.number 1) := by
  simp

theorem derivative_integral_self {integrand : Expr α} :
    (integral integrand name).derivative arithmetic name = .ok integrand := by
  simp

section Operators

variable {operand left right slope leftSlope rightSlope : Expr α}

theorem derivative_unary {operator : UnaryOperator} {result : Expr α}
    (isSlope : operand.derivative arithmetic name = .ok slope)
    (isResult : Derivative.unary arithmetic operator operand slope = .ok result)
    (mentioned : operand.mentions name = true) :
    (unary operator operand).derivative arithmetic name = .ok result := by
  rw [derivative, if_pos mentioned, isSlope]
  exact isResult

theorem derivative_neg (isSlope : operand.derivative arithmetic name = .ok slope)
    (mentioned : operand.mentions name = true) :
    (-operand).derivative arithmetic name = .ok (-slope) :=
  derivative_unary isSlope rfl mentioned

section Binary

variable (isLeft : left.derivative arithmetic name = .ok leftSlope)
  (isRight : right.derivative arithmetic name = .ok rightSlope)
  (mentioned : (left.mentions name || right.mentions name) = true)

include isLeft isRight mentioned

theorem derivative_add :
    (left + right).derivative arithmetic name = .ok (leftSlope + rightSlope) := by
  change (binary .add left right).derivative arithmetic name = _
  rw [derivative, if_pos mentioned, isLeft, isRight]
  rfl

theorem derivative_sub :
    (left - right).derivative arithmetic name = .ok (leftSlope - rightSlope) := by
  change (binary .subtract left right).derivative arithmetic name = _
  rw [derivative, if_pos mentioned, isLeft, isRight]
  rfl

theorem derivative_mul :
    (left * right).derivative arithmetic name =
      .ok (leftSlope * right + left * rightSlope) := by
  change (binary .multiply left right).derivative arithmetic name = _
  rw [derivative, if_pos mentioned, isLeft, isRight]
  rfl

theorem derivative_div :
    (left / right).derivative arithmetic name =
      .ok (Derivative.quotient arithmetic left leftSlope right rightSlope) := by
  change (binary .divide left right).derivative arithmetic name = _
  rw [derivative, if_pos mentioned, isLeft, isRight]
  rfl

end Binary

/-- A power with an exponent free of the variable. -/
theorem derivative_power (isLeft : left.derivative arithmetic name = .ok leftSlope)
    (mentioned : left.mentions name = true) (free : right.mentions name = false) :
    (left ^ right).derivative arithmetic name =
      .ok (right * left ^ (right - arithmetic.number 1) * leftSlope) := by
  change (binary .power left right).derivative arithmetic name = _
  simp only [derivative, mentioned, Bool.true_or, if_true, free, Bool.false_eq_true, if_false,
    isLeft]
  rfl

/-- A power with an exponent that mentions the variable. -/
theorem derivative_exponential (isLeft : left.derivative arithmetic name = .ok leftSlope)
    (isRight : right.derivative arithmetic name = .ok rightSlope)
    (mentioned : right.mentions name = true) :
    (left ^ right).derivative arithmetic name =
      .ok (left ^ right * (rightSlope * left.ln + right * (leftSlope / left))) := by
  change (binary .power left right).derivative arithmetic name = _
  simp only [derivative, mentioned, Bool.or_true, if_true, isLeft, isRight]
  rfl

/-- A call of a function of the table of derivatives. -/
theorem derivative_call {function : String} {rule : Expr α → Expr α → Expr α}
    (isRule : Derivative.rule? arithmetic function = some rule)
    (isSlope : operand.derivative arithmetic name = .ok slope)
    (mentioned : operand.mentions name = true) :
    (call function operand []).derivative arithmetic name = .ok (rule operand slope) := by
  simp only [derivative, mentioned, Bool.true_or, if_true, isRule, isSlope]
  rfl

end Operators

end Derivatives

section Transformations

variable {expression : Expr α}

/-- Differentiating gives the simplified form of the derivative. -/
theorem differentiate_eq_ok {result : Expr α} :
    (expression.differentiate arithmetic name).outcome = .ok result ↔
      ∃ derivative, expression.derivative arithmetic name = .ok derivative ∧
        (derivative.simplify arithmetic).outcome = .ok result := by
  constructor
  · intro differentiated
    obtain ⟨_, -, derived⟩ := Traced.outcome_bind_eq_ok.mp differentiated
    split at derived
    next derivative isDerivative => exact ⟨derivative, isDerivative, mapError_eq_ok.mp derived⟩
    next =>
      obtain ⟨_, -, failed⟩ := Traced.outcome_bind_eq_ok.mp derived
      cases failed
  · rintro ⟨derivative, isDerivative, isSimplified⟩
    rw [differentiate, isDerivative]
    exact Traced.outcome_bind_eq_ok.mpr ⟨(), rfl, mapError_eq_ok.mpr isSimplified⟩

/-- Integrating over a variable with a name gives the simplified form of the antiderivative,
with the tag of the latter. -/
theorem integrate_eq_ok {result : Antiderivative α} :
    (expression.integrate arithmetic name).outcome = .ok result ↔
      ¬ name.isEmpty = true ∧
        ∃ found, (expression.antiderivative arithmetic name).outcome = .ok found ∧
          (found.tree.simplify arithmetic).outcome = .ok result.tree ∧
          result.supported = found.supported := by
  constructor
  · intro integrated
    obtain ⟨_, -, further⟩ := Traced.outcome_bind_eq_ok.mp integrated
    split at further
    next => cases further
    next named =>
      obtain ⟨found, isFound, further⟩ := Traced.outcome_bind_eq_ok.mp further
      obtain ⟨simplified, isSimplified, made⟩ := Traced.outcome_bind_eq_ok.mp further
      cases made
      exact ⟨named, found, mapError_eq_ok.mp isFound, mapError_eq_ok.mp isSimplified, rfl⟩
  · rintro ⟨named, found, isFound, isSimplified, isTag⟩
    rw [integrate, if_neg named]
    refine Traced.outcome_bind_eq_ok.mpr ⟨(), rfl, Traced.outcome_bind_eq_ok.mpr
      ⟨found, mapError_eq_ok.mpr isFound, Traced.outcome_bind_eq_ok.mpr
        ⟨result.tree, mapError_eq_ok.mpr isSimplified, ?_⟩⟩⟩
    rw [← isTag]
    rfl

end Transformations

end Expr

/-- A rule of the table has no variables of its own. -/
theorem Antiderivative.substitute_rule {α : Type} {arithmetic : Arithmetic α}
    {function fresh : String} {rule : Expr α → Expr α} {argument : Expr α}
    (isRule : rule? arithmetic function = some rule) :
    Expr.substitute fresh argument (rule (.var fresh)) = rule argument := by
  have inside : Expr.substitute fresh argument (rule (.var fresh)) =
      rule (Expr.substitute fresh argument (.var fresh)) := by
    unfold rule? at isRule
    split at isRule <;> cases isRule <;> rfl
  rw [inside, Expr.substitute, if_pos rfl]

end ExprCalculus
