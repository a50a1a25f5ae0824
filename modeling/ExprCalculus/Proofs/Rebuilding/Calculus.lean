import ExprCalculus.Proofs.Calculus.Rules
import ExprCalculus.Proofs.Outcomes
import ExprCalculus.Proofs.Rebuilding.Simplification

/-!
# Properties that differentiating and integrating keep

Derivatives and antiderivatives are put together from parts of the expression, the
variable, constants, operators other than the factorial, calls of the three reciprocal
functions, and markers of unknown integrals.  A property that survives these passes from
an expression to its derivative and to its antiderivative.

Integrating evaluates parts of the expression, and a fault that does not belong to such a
part ends it.
-/

namespace ExprCalculus

variable {α : Type}

/-- A property that constants have and that survives operators other than the factorial and
calls of the three reciprocal functions. -/
structure Assembling (holds : Expr α → Prop) : Prop where
  const (value : α) : holds (.const value)
  unary {operator : UnaryOperator} {operand : Expr α} (proper : operator ≠ .factorial)
    (given : holds operand) : holds (.unary operator operand)
  binary {left right : Expr α} (operator : BinaryOperator) (leftGiven : holds left)
    (rightGiven : holds right) : holds (.binary operator left right)
  reciprocal {name : String} {operand : Expr α} (listed : name ∈ ["sec", "csc", "cot"])
    (given : holds operand) : holds (.call name operand [])

/-- A rule of the table of antiderivatives puts its argument below operators and reciprocal
functions only. -/
theorem Assembling.antiderivativeRule {holds : Expr α → Prop} (assembling : Assembling holds)
    {arithmetic : Arithmetic α} {function : String} {rule : Expr α → Expr α}
    (isRule : Antiderivative.rule? arithmetic function = some rule) {argument : Expr α}
    (given : holds argument) : holds (rule argument) := by
  have number (value : Int) : holds (arithmetic.number value) := assembling.const _
  unfold Antiderivative.rule? at isRule
  split at isRule <;> cases isRule
  all_goals
    repeat' first
      | assumption
      | exact number _
      | exact assembling.const _
      | decide
      | apply assembling.binary
      | apply assembling.unary
      | apply assembling.reciprocal

/-- A property that survives everything that derivatives and antiderivatives are built
from. -/
structure Calculating (holds : Expr α → Prop) : Prop extends Rebuilding holds where
  unary {operator : UnaryOperator} {operand : Expr α} (proper : operator ≠ .factorial)
    (given : holds operand) : holds (.unary operator operand)
  reciprocal {name : String} {operand : Expr α} (listed : name ∈ ["sec", "csc", "cot"])
    (given : holds operand) : holds (.call name operand [])
  integral {integrand : Expr α} {name : String} (given : holds integrand)
    (variableGiven : holds (.var name)) : holds (.integral integrand name)
  bound {integrand : Expr α} {name : String} (given : holds (.integral integrand name)) :
    holds (.var name)

theorem Calculating.assembling {holds : Expr α → Prop} (calculating : Calculating holds) :
    Assembling holds where
  const := calculating.const
  unary := calculating.unary
  binary := calculating.binary
  reciprocal := calculating.reciprocal

theorem Calculating.and {holds other : Expr α → Prop} (calculating : Calculating holds)
    (otherCalculating : Calculating other) :
    Calculating fun expression => holds expression ∧ other expression where
  const value := ⟨calculating.const value, otherCalculating.const value⟩
  negate given := ⟨calculating.negate given.1, otherCalculating.negate given.2⟩
  binary operator leftGiven rightGiven :=
    ⟨calculating.binary operator leftGiven.1 rightGiven.1,
      otherCalculating.binary operator leftGiven.2 rightGiven.2⟩
  child given child below :=
    ⟨calculating.child given.1 child below, otherCalculating.child given.2 child below⟩
  unary proper given := ⟨calculating.unary proper given.1, otherCalculating.unary proper given.2⟩
  reciprocal listed given :=
    ⟨calculating.reciprocal listed given.1, otherCalculating.reciprocal listed given.2⟩
  integral given variableGiven :=
    ⟨calculating.integral given.1 variableGiven.1,
      otherCalculating.integral given.2 variableGiven.2⟩
  bound given := ⟨calculating.bound given.1, otherCalculating.bound given.2⟩

/-- A fault with which evaluating some expression with the property ends and which does
not belong to the expression. -/
def ForeignFault (arithmetic : Arithmetic α) (holds : Expr α → Prop)
    (fault : EvaluationFault α) : Prop :=
  fault.isOrdinary = false ∧ ∃ part, holds part ∧ part.closedValue arithmetic = .error fault

/-- A computation that ends with the fault of an expression with the property, if with any. -/
def OnlyForeign {β : Type} (arithmetic : Arithmetic α) (holds : Expr α → Prop)
    (computed : Except (EvaluationFault α) β) : Prop :=
  ∀ fault, computed = .error fault → ForeignFault arithmetic holds fault

namespace OnlyForeign

variable {β γ : Type} {arithmetic : Arithmetic α} {holds : Expr α → Prop}
  {computed : Except (EvaluationFault α) β}

theorem ok (value : β) :
    OnlyForeign arithmetic holds (.ok value : Except (EvaluationFault α) β) := by
  rintro _ ⟨⟩

theorem bind {next : β → Except (EvaluationFault α) γ}
    (foreign : OnlyForeign arithmetic holds computed)
    (nextForeign : ∀ value, OnlyForeign arithmetic holds (next value)) :
    OnlyForeign arithmetic holds (computed >>= next) := by
  intro fault failed
  rcases except_bind_eq_error.mp failed with failed | ⟨value, -, failed⟩
  · exact foreign fault failed
  · exact nextForeign value fault failed

end OnlyForeign

/-- An integration whose result has the property, or that ends with the fault of an
expression with the property. -/
structure Yields (arithmetic : Arithmetic α) (holds : Expr α → Prop)
    (integration : Antiderivative.Integrating α (Antiderivative α)) : Prop where
  tree (result : Antiderivative α) (made : integration.outcome = .ok result) : holds result.tree
  fault (fault : EvaluationFault α) (failed : integration.outcome = .error fault) :
    ForeignFault arithmetic holds fault

namespace Yields

variable {arithmetic : Arithmetic α} {holds : Expr α → Prop} {name : String}

theorem pure {result : Antiderivative α} (given : holds result.tree) :
    Yields arithmetic holds (Pure.pure result) where
  tree _ made := by
    cases made
    exact given
  fault _ failed := by cases failed

theorem found {tree : Expr α} (given : holds tree) :
    Yields arithmetic holds (Antiderivative.found tree) :=
  pure given

theorem left {integrand : Expr α} {gap : IntegralGap} (given : holds (.integral integrand name)) :
    Yields arithmetic holds (Antiderivative.left name integrand gap) where
  tree _ made := by
    cases made
    exact given
  fault _ failed := by cases failed

theorem bind {integration : Antiderivative.Integrating α (Antiderivative α)}
    {next : Antiderivative α → Antiderivative.Integrating α (Antiderivative α)}
    (yields : Yields arithmetic holds integration)
    (nextYields : ∀ result, holds result.tree → Yields arithmetic holds (next result)) :
    Yields arithmetic holds (integration >>= next) where
  tree result made := by
    obtain ⟨middle, middleMade, made⟩ := Traced.outcome_bind_eq_ok.mp made
    exact (nextYields middle (yields.tree middle middleMade)).tree result made
  fault fault failed := by
    rw [Traced.outcome_bind] at failed
    cases outcome : integration.outcome with
    | error other =>
        rw [outcome] at failed
        cases failed
        exact yields.fault fault outcome
    | ok middle =>
        rw [outcome] at failed
        exact (nextYields middle (yields.tree middle outcome)).fault fault failed

/-- An integration that depends on a computed value. -/
theorem after {β : Type} {computed : Except (EvaluationFault α) β}
    {next : β → Antiderivative.Integrating α (Antiderivative α)}
    (foreign : OnlyForeign arithmetic holds computed)
    (nextYields : ∀ value, Yields arithmetic holds (next value)) :
    Yields arithmetic holds (Traced.ofExcept computed >>= next) where
  tree result made := by
    obtain ⟨value, -, made⟩ := Traced.outcome_bind_eq_ok.mp made
    exact (nextYields value).tree result made
  fault fault failed := by
    rw [Traced.outcome_bind, Traced.outcome_ofExcept] at failed
    cases computed with
    | error other =>
        cases failed
        exact foreign fault rfl
    | ok value => exact (nextYields value).fault fault failed

end Yields

namespace Calculating

variable {holds : Expr α → Prop} (calculating : Calculating holds) {arithmetic : Arithmetic α}
  {name : String}
include calculating

section Derivatives

/-- A rule of the table of derivatives keeps the property. -/
theorem derivativeRule {function : String} {rule : Expr α → Expr α → Expr α}
    (isRule : Derivative.rule? arithmetic function = some rule) {operand slope : Expr α}
    (given : holds operand) (slopeGiven : holds slope) : holds (rule operand slope) := by
  have number (value : Int) : holds (arithmetic.number value) := calculating.const _
  unfold Derivative.rule? at isRule
  split at isRule <;> cases isRule
  all_goals
    repeat' first
      | assumption
      | exact number _
      | decide
      | apply calculating.binary
      | apply calculating.unary
      | apply calculating.reciprocal

theorem derivativeUnary {operator : UnaryOperator} {operand slope result : Expr α}
    (given : holds operand) (slopeGiven : holds slope)
    (made : Derivative.unary arithmetic operator operand slope = .ok result) : holds result := by
  unfold Derivative.unary at made
  split at made
  · cases made
    exact calculating.negate slopeGiven
  split at made
  next rule isRule =>
    cases made
    obtain ⟨word, -, isRule⟩ := Option.bind_eq_some_iff.mp isRule
    exact calculating.derivativeRule isRule given slopeGiven
  next => cases made

theorem derivativeQuotient {left leftSlope right rightSlope : Expr α} (leftGiven : holds left)
    (leftSlopeGiven : holds leftSlope) (rightGiven : holds right)
    (rightSlopeGiven : holds rightSlope) :
    holds (Derivative.quotient arithmetic left leftSlope right rightSlope) := by
  unfold Derivative.quotient
  refine calculating.binary .divide (calculating.binary .subtract ?_ ?_)
    (calculating.binary .power rightGiven (calculating.const _))
  · exact calculating.binary .multiply leftSlopeGiven rightGiven
  · exact calculating.binary .multiply leftGiven rightSlopeGiven

theorem derivativeLogarithm {operand slope : Expr α} (given : holds operand)
    (slopeGiven : holds slope) : holds (Derivative.logarithm arithmetic name operand slope) := by
  unfold Derivative.logarithm
  split
  · exact calculating.binary .divide slopeGiven given
  · exact calculating.const _

section Operators

variable {left right result : Expr α} (leftGiven : holds left) (rightGiven : holds right)
  (leftKeeps : ∀ slope, left.derivative arithmetic name = .ok slope → holds slope)
  (rightKeeps : ∀ slope, right.derivative arithmetic name = .ok slope → holds slope)
include leftKeeps rightKeeps

omit calculating in
theorem exists_slopes {combine : Expr α → Expr α → Expr α}
    (derived : (do
      let first ← left.derivative arithmetic name
      let second ← right.derivative arithmetic name
      return combine first second) = .ok result) :
    ∃ first second, holds first ∧ holds second ∧ result = combine first second := by
  obtain ⟨first, firstDerived, rest⟩ := except_bind_eq_ok.mp derived
  obtain ⟨second, secondDerived, made⟩ := except_bind_eq_ok.mp rest
  cases made
  exact ⟨first, second, leftKeeps first firstDerived, rightKeeps second secondDerived, rfl⟩

include leftGiven rightGiven

theorem derivativePower
    (derived : (Expr.binary .power left right).derivative arithmetic name = .ok result) :
    holds result := by
  unfold Expr.derivative at derived
  split at derived
  case isFalse =>
    cases derived
    exact calculating.const _
  case isTrue =>
    dsimp only at derived
    split at derived
    next =>
      obtain ⟨second, first, secondGiven, firstGiven, rfl⟩ :=
        exists_slopes rightKeeps leftKeeps derived
      exact calculating.binary .multiply (calculating.binary .power leftGiven rightGiven)
        (calculating.binary .add
          (calculating.binary .multiply secondGiven (calculating.unary (by decide) leftGiven))
          (calculating.binary .multiply rightGiven
            (calculating.binary .divide firstGiven leftGiven)))
    next =>
      obtain ⟨first, firstDerived, made⟩ := except_bind_eq_ok.mp derived
      cases made
      have one : holds (arithmetic.number 1) := calculating.const _
      have lowered := calculating.binary .power leftGiven
        (calculating.binary .subtract rightGiven one)
      exact calculating.binary .multiply (calculating.binary .multiply rightGiven lowered)
        (leftKeeps first firstDerived)

theorem derivativeBinary {operator : BinaryOperator}
    (derived : (Expr.binary operator left right).derivative arithmetic name = .ok result) :
    holds result := by
  by_cases isPower : operator = .power
  · subst isPower
    exact calculating.derivativePower leftGiven rightGiven leftKeeps rightKeeps derived
  unfold Expr.derivative at derived
  split at derived
  case isFalse =>
    cases derived
    exact calculating.const _
  case isTrue =>
    cases operator with
    | add =>
        obtain ⟨first, second, firstGiven, secondGiven, rfl⟩ :=
          exists_slopes leftKeeps rightKeeps derived
        exact calculating.binary .add firstGiven secondGiven
    | subtract =>
        obtain ⟨first, second, firstGiven, secondGiven, rfl⟩ :=
          exists_slopes leftKeeps rightKeeps derived
        exact calculating.binary .subtract firstGiven secondGiven
    | multiply =>
        obtain ⟨first, second, firstGiven, secondGiven, rfl⟩ :=
          exists_slopes leftKeeps rightKeeps derived
        exact calculating.binary .add (calculating.binary .multiply firstGiven rightGiven)
          (calculating.binary .multiply leftGiven secondGiven)
    | divide =>
        obtain ⟨first, second, firstGiven, secondGiven, rfl⟩ :=
          exists_slopes leftKeeps rightKeeps derived
        exact calculating.derivativeQuotient leftGiven firstGiven rightGiven secondGiven
    | power => exact absurd rfl isPower
    | logBase =>
        obtain ⟨first, second, firstGiven, secondGiven, rfl⟩ :=
          exists_slopes leftKeeps rightKeeps derived
        exact calculating.derivativeQuotient (calculating.unary (by decide) leftGiven)
          (calculating.derivativeLogarithm leftGiven firstGiven)
          (calculating.unary (by decide) rightGiven)
          (calculating.derivativeLogarithm rightGiven secondGiven)
    | modulo => cases derived

end Operators

/-- The derivative of an expression with the property has it. -/
theorem ofDerivative {expression result : Expr α} (given : holds expression)
    (derived : expression.derivative arithmetic name = .ok result) : holds result := by
  have number (value : Int) : holds (arithmetic.number value) := calculating.const _
  match expression with
  | .const value =>
      cases derived
      exact number 0
  | .var other =>
      cases derived
      exact calculating.const _
  | .unary operator operand =>
      have operandGiven := calculating.below_unary given
      rw [Expr.derivative] at derived
      split at derived
      next =>
        obtain ⟨inner, innerDerived, made⟩ := except_bind_eq_ok.mp derived
        exact calculating.derivativeUnary operandGiven
          (ofDerivative operandGiven innerDerived) made
      next =>
        cases derived
        exact number 0
  | .binary operator left right =>
      have leftGiven := calculating.below_left given
      have rightGiven := calculating.below_right given
      exact calculating.derivativeBinary leftGiven rightGiven
        (fun _ leftDerived => ofDerivative leftGiven leftDerived)
        (fun _ rightDerived => ofDerivative rightGiven rightDerived) derived
  | .call function first [] =>
      have firstGiven := calculating.child given first List.mem_cons_self
      rw [Expr.derivative] at derived
      split at derived
      case isFalse =>
        cases derived
        exact number 0
      case isTrue =>
        split at derived
        next rule isRule =>
          obtain ⟨inner, innerDerived, made⟩ := except_bind_eq_ok.mp derived
          cases made
          exact calculating.derivativeRule isRule firstGiven (ofDerivative firstGiven innerDerived)
        next => cases derived
  | .call function first (_ :: _) =>
      rw [Expr.derivative] at derived
      split at derived
      · cases derived
      · cases derived
        exact number 0
  | .integral integrand bound =>
      have integrandGiven := calculating.child given integrand List.mem_cons_self
      rw [Expr.derivative] at derived
      split at derived
      · cases derived
        exact integrandGiven
      split at derived
      · obtain ⟨inner, innerDerived, made⟩ := except_bind_eq_ok.mp derived
        cases made
        exact calculating.integral (ofDerivative integrandGiven innerDerived)
          (calculating.bound given)
      · cases derived
        exact number 0

end Derivatives

section Affine

omit calculating in
theorem onlyForeign_finiteValue? {expression : Expr α} (given : holds expression) :
    OnlyForeign arithmetic holds (expression.finiteValue? arithmetic) := by
  intro fault failed
  unfold Expr.finiteValue? at failed
  split at failed
  case isFalse => cases failed
  case isTrue =>
    split at failed
    next => cases failed
    next other closed =>
      split at failed
      next => cases failed
      next foreign =>
        cases failed
        exact ⟨Bool.eq_false_iff.mpr foreign, expression, given, closed⟩

theorem onlyForeign_affine? {expression : Expr α} (given : holds expression) :
    OnlyForeign arithmetic holds (expression.affine? arithmetic name) := by
  unfold Expr.affine?
  by_cases isVar : expression.isVar name = true
  · rw [if_pos isVar]
    exact .ok _
  by_cases free : (!expression.mentions name) = true
  · rw [if_neg isVar, if_pos free]
    exact (onlyForeign_finiteValue? given).bind fun _ => .ok _
  rw [if_neg isVar, if_neg free]
  split
  next operand =>
    exact (onlyForeign_affine? (calculating.below_unary given)).bind fun _ => .ok _
  next left right =>
    refine (onlyForeign_affine? (calculating.below_left given)).bind fun _ => ?_
    exact (onlyForeign_affine? (calculating.below_right given)).bind fun _ => .ok _
  next left right =>
    refine (onlyForeign_affine? (calculating.below_left given)).bind fun _ => ?_
    exact (onlyForeign_affine? (calculating.below_right given)).bind fun _ => .ok _
  next left right =>
    have leftGiven := calculating.below_left given
    have rightGiven := calculating.below_right given
    refine (onlyForeign_finiteValue? leftGiven).bind fun scale? => ?_
    cases scale? with
    | some scale => exact (onlyForeign_affine? rightGiven).bind fun _ => .ok _
    | none =>
        refine (onlyForeign_finiteValue? rightGiven).bind fun other? => ?_
        cases other? with
        | some scale => exact (onlyForeign_affine? leftGiven).bind fun _ => .ok _
        | none => exact .ok _
  next left right =>
    refine (onlyForeign_finiteValue? (calculating.below_right given)).bind fun divisor? => ?_
    cases divisor? with
    | some divisor =>
        dsimp only
        split
        · exact .ok _
        · exact (onlyForeign_affine? (calculating.below_left given)).bind fun _ => .ok _
    | none => exact .ok _
  next => exact .ok _

end Affine

section Antiderivatives

/-- A rule of the table of antiderivatives keeps the property. -/
theorem antiderivativeRule {function : String} {rule : Expr α → Expr α}
    (isRule : Antiderivative.rule? arithmetic function = some rule) {argument : Expr α}
    (given : holds argument) : holds (rule argument) :=
  calculating.assembling.antiderivativeRule isRule given

variable (variableGiven : holds (.var name))
include variableGiven

theorem left {integrand : Expr α} {gap : IntegralGap} (given : holds integrand) :
    Yields arithmetic holds (Antiderivative.left name integrand gap) :=
  .left (calculating.integral given variableGiven)

theorem elementary {integrand argument : Expr α} {function : String} (given : holds integrand)
    (argumentGiven : holds argument) :
    Yields arithmetic holds
      (Antiderivative.elementary arithmetic name integrand function argument) := by
  have unmatched (gap : IntegralGap) :
      Yields arithmetic holds (Antiderivative.left name integrand gap) :=
    calculating.left variableGiven given
  unfold Antiderivative.elementary
  split
  next => exact unmatched _
  next rule isRule =>
    split
    · exact .found (calculating.antiderivativeRule isRule argumentGiven)
    refine .after (calculating.onlyForeign_affine? argumentGiven) ?_
    intro affine?
    cases affine? with
    | none => exact unmatched _
    | some affine =>
        dsimp only
        split
        · exact unmatched _
        rw [Antiderivative.substitute_rule isRule]
        exact .found (calculating.binary .divide
          (calculating.antiderivativeRule isRule argumentGiven) (calculating.const _))

theorem power {base exponent : Expr α} (given : holds (base ^ exponent)) :
    Yields arithmetic holds (Antiderivative.power arithmetic name base exponent) := by
  unfold Antiderivative.power
  dsimp only
  split
  · exact .found given
  split
  · split
    · exact .found (calculating.unary (by decide) variableGiven)
    · exact .found (calculating.binary .divide
        (calculating.binary .power variableGiven (calculating.const _)) (calculating.const _))
  · exact calculating.left variableGiven given

theorem reciprocalOf {numerator denominator : Expr α} (given : holds (numerator / denominator)) :
    Yields arithmetic holds (Antiderivative.reciprocal arithmetic name numerator denominator) := by
  have denominatorGiven : holds denominator := calculating.below_right given
  unfold Antiderivative.reciprocal
  dsimp only
  split
  · refine .after (calculating.onlyForeign_affine? denominatorGiven) fun affine? => ?_
    split
    · exact .found (calculating.binary .divide
        (calculating.unary (by decide) (calculating.unary (by decide) denominatorGiven))
        (calculating.const _))
    split
    · exact .found (calculating.binary .divide
        (calculating.unary (by decide)
          (calculating.binary .divide variableGiven (calculating.const _)))
        (calculating.const _))
    · exact calculating.left variableGiven given
  · exact calculating.left variableGiven given

theorem product {first second : Expr α} (given : holds (first * second)) :
    Yields arithmetic holds (Antiderivative.product arithmetic name first second) := by
  have unmatched : Yields arithmetic holds (Antiderivative.left name (first * second) .product) :=
    calculating.left variableGiven given
  have secondGiven : holds second := calculating.below_right given
  have shifted : holds (.var name - arithmetic.number 1 : Expr α) :=
    calculating.binary .subtract variableGiven (calculating.const _)
  have sine : holds (.sin (.var name)) := calculating.unary (by decide) variableGiven
  have cosine : holds (.cos (.var name)) := calculating.unary (by decide) variableGiven
  unfold Antiderivative.product
  dsimp only
  split
  case isFalse => exact unmatched
  case isTrue =>
    split
    next operator operand =>
      split
      case isFalse => exact unmatched
      case isTrue =>
        split
        · exact .found (calculating.binary .multiply shifted
            (calculating.unary (by decide) variableGiven))
        · exact .found (calculating.binary .subtract sine
            (calculating.binary .multiply variableGiven cosine))
        · exact .found (calculating.binary .add cosine
            (calculating.binary .multiply variableGiven sine))
        · exact unmatched
    next base exponent =>
      split
      · exact .found (calculating.binary .multiply shifted secondGiven)
      · exact unmatched
    next => exact unmatched

theorem quotient {numerator denominator : Expr α} (given : holds (numerator / denominator)) :
    Yields arithmetic holds (Antiderivative.quotient arithmetic name numerator denominator) := by
  unfold Antiderivative.quotient
  split
  · exact .found (calculating.unary (by decide) variableGiven)
  · exact calculating.reciprocalOf variableGiven given

/-- The antiderivative of an expression with the property has it. -/
theorem yields_antiderivative {expression : Expr α} (given : holds expression) :
    Yields arithmetic holds (expression.antiderivative arithmetic name) := by
  unfold Expr.antiderivative
  by_cases free : (!expression.mentions name) = true
  · rw [if_pos free]
    exact .found (calculating.binary .multiply given variableGiven)
  by_cases isVar : expression.isVar name = true
  · rw [if_neg free, if_pos isVar]
    exact .found (calculating.binary .divide
      (calculating.binary .power variableGiven (calculating.const _)) (calculating.const _))
  rw [if_neg free, if_neg isVar]
  split
  next left right =>
    refine (yields_antiderivative (calculating.below_left given)).bind fun first firstGiven => ?_
    refine (yields_antiderivative (calculating.below_right given)).bind fun second secondGiven => ?_
    exact .pure (calculating.binary .add firstGiven secondGiven)
  next left right =>
    refine (yields_antiderivative (calculating.below_left given)).bind fun first firstGiven => ?_
    refine (yields_antiderivative (calculating.below_right given)).bind fun second secondGiven => ?_
    exact .pure (calculating.binary .subtract firstGiven secondGiven)
  next left right =>
    have leftGiven := calculating.below_left given
    have rightGiven := calculating.below_right given
    split
    · refine (yields_antiderivative rightGiven).bind fun inner innerGiven => ?_
      exact .pure (calculating.binary .multiply leftGiven innerGiven)
    split
    · refine (yields_antiderivative leftGiven).bind fun inner innerGiven => ?_
      exact .pure (calculating.binary .multiply rightGiven innerGiven)
    · exact calculating.product variableGiven given
  next left right => exact calculating.quotient variableGiven given
  next left right => exact calculating.power variableGiven given
  next operand =>
    refine (yields_antiderivative (calculating.below_unary given)).bind fun inner innerGiven => ?_
    exact .pure (calculating.negate innerGiven)
  next operator operand _ =>
    split
    · exact calculating.elementary variableGiven given (calculating.below_unary given)
    · exact calculating.left variableGiven given
  next function first =>
    exact calculating.elementary variableGiven given
      (calculating.child given first List.mem_cons_self)
  next => exact calculating.left variableGiven given
  next => exact calculating.left variableGiven given

end Antiderivatives

end Calculating

end ExprCalculus
