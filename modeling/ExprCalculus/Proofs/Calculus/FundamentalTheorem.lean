import ExprCalculus.Proofs.Calculus.Elementary
import ExprCalculus.Proofs.Calculus.SeriesReading

/-!
# The fundamental theorem

In every textbook reading, the derivative of an antiderivative exists and is read as the
integrand, whether the antiderivative was found or holds markers of unknown integrals.
-/

namespace ExprCalculus

namespace Reading

variable {C K : Type} [Field C] [LinearOrder C] [Field K] [Algebra C K]

/-- An integration has a result whose derivative is read as the given element. -/
def Integrates (constants : Constants C) (reading : Reading C K) (name : String)
    (integration : Antiderivative.Integrating (Option C) (Antiderivative (Option C)))
    (element : K) : Prop :=
  ∃ result, integration.outcome = .ok result ∧
    ∃ antiderivative, HasSlope constants reading name result.tree antiderivative element

variable {constants : Constants C} {reading : Reading C K} {name : String} {element : K}

section Results

theorem integrates_found {tree : Expr (Option C)} {antiderivative : K}
    (slopes : HasSlope constants reading name tree antiderivative element) :
    Integrates constants reading name (Antiderivative.found tree) element :=
  ⟨_, rfl, _, slopes⟩

theorem integrates_left {integrand : Expr (Option C)} {gap : IntegralGap}
    (isValue : reading.value integrand = some element) :
    Integrates constants reading name (Antiderivative.left name integrand gap) element :=
  ⟨_, rfl, _, HasSlope.integral isValue⟩

/-- Two integrations whose results are combined. -/
theorem Integrates.combine
    {first second : Antiderivative.Integrating (Option C) (Antiderivative (Option C))}
    {combined : Expr (Option C) → Expr (Option C) → Expr (Option C)}
    {firstElement secondElement : K}
    (isFirst : Integrates constants reading name first firstElement)
    (isSecond : Integrates constants reading name second secondElement)
    (slopes : ∀ left right leftValue rightValue,
      HasSlope constants reading name left leftValue firstElement →
      HasSlope constants reading name right rightValue secondElement →
      ∃ antiderivative, HasSlope constants reading name (combined left right) antiderivative
        element) :
    Integrates constants reading name (do
      let one ← first
      let other ← second
      return ⟨combined one.tree other.tree, one.supported && other.supported⟩) element := by
  obtain ⟨one, oneOk, leftValue, leftSlopes⟩ := isFirst
  obtain ⟨other, otherOk, rightValue, rightSlopes⟩ := isSecond
  refine ⟨⟨combined one.tree other.tree, one.supported && other.supported⟩, ?_,
    slopes one.tree other.tree leftValue rightValue leftSlopes rightSlopes⟩
  simp [Traced.outcome_bind, oneOk, otherOk, Except.bind]

/-- An integration whose result is changed. -/
theorem Integrates.change
    {first : Antiderivative.Integrating (Option C) (Antiderivative (Option C))}
    {changed : Expr (Option C) → Expr (Option C)} {firstElement : K}
    (isFirst : Integrates constants reading name first firstElement)
    (slopes : ∀ tree value, HasSlope constants reading name tree value firstElement →
      ∃ antiderivative, HasSlope constants reading name (changed tree) antiderivative element) :
    Integrates constants reading name (do
      let inner ← first
      return ⟨changed inner.tree, inner.supported⟩) element := by
  obtain ⟨inner, innerOk, value, innerSlopes⟩ := isFirst
  refine ⟨⟨changed inner.tree, inner.supported⟩, ?_, slopes inner.tree value innerSlopes⟩
  simp [Traced.outcome_bind, innerOk, Except.bind]

/-- An integration that depends on a computed number. -/
theorem Integrates.after {β : Type} {outcome : Except (EvaluationFault (Option C)) β} {value : β}
    {next : β → Antiderivative.Integrating (Option C) (Antiderivative (Option C))}
    (isValue : outcome = .ok value)
    (isNext : Integrates constants reading name (next value) element) :
    Integrates constants reading name (Traced.ofExcept outcome >>= next) element := by
  obtain ⟨result, isResult, slopes⟩ := isNext
  refine ⟨result, ?_, slopes⟩
  simp [Traced.outcome_bind, isValue, isResult, Except.bind]

end Results

section Steps

variable (textbook : IsTextbook constants reading name)

include textbook

theorem moves_named : reading.Moves (reading.named name) 1 :=
  ⟨one_ne_zero, by rw [textbook.derivation_named, map_one]⟩

theorem moves_affine {slope : C} (nonzero : slope ≠ 0) (intercept : C) :
    reading.Moves (algebraMap C K slope * reading.named name + algebraMap C K intercept) slope := by
  refine ⟨nonzero, ?_⟩
  simp [textbook.derivation_named]

/-- Division by a constant slope. -/
theorem HasSlope.div_const {tree : Expr (Option C)} {antiderivative : K} {slope : C}
    (nonzero : slope ≠ 0)
    (slopes : HasSlope constants reading name tree antiderivative
      (element * algebraMap C K slope)) :
    HasSlope constants reading name (tree / .const (some slope))
      (antiderivative / algebraMap C K slope) element := by
  have invertible : algebraMap C K slope ≠ 0 := by simpa using nonzero
  apply (slopes.div (HasSlope.const slope) textbook invertible).congr
  field_simp
  ring

theorem integrates_elementary [CharZero C] {integrand argument : Expr (Option C)}
    {function : String} {u : K} (isValue : reading.value integrand = some element)
    (isArgument : reading.value argument = some u)
    (isCall : ∀ slope, reading.Moves u slope → reading.call function [u] = element) :
    Integrates constants reading name
      (Antiderivative.elementary constants.arithmetic name integrand function argument)
      element := by
  rw [Antiderivative.elementary]
  split
  · exact integrates_left isValue
  next rule isRule =>
    split
    · next isVar =>
        obtain rfl := Expr.eq_var_of_isVar isVar
        rw [value_var, Option.some.injEq] at isArgument
        subst isArgument
        have moves := moves_named textbook
        have slopes : HasSlope constants reading name (.var name) (reading.named name)
            (algebraMap C K 1) := by
          simpa using HasSlope.var
        obtain ⟨antiderivative, ruleSlopes⟩ := exists_rule_slope textbook slopes moves isRule
        apply integrates_found
        apply ruleSlopes.congr
        rw [isCall 1 moves, map_one, mul_one]
    · obtain ⟨found, isFound, isAffine⟩ := exists_affine? textbook argument
      apply Integrates.after isFound
      cases found with
      | none => exact integrates_left isValue
      | some line =>
          obtain ⟨slope, intercept, rfl, slopes⟩ := isAffine line rfl
          dsimp only
          split
          · exact integrates_left isValue
          next steep =>
            have nonzero : slope ≠ 0 := by
              rintro rfl
              simp [Constants.arithmetic, Arithmetic.zero] at steep
            obtain rfl := Option.some.inj (isArgument.symm.trans slopes.isValue)
            have moves := moves_affine textbook nonzero intercept
            obtain ⟨antiderivative, ruleSlopes⟩ := exists_rule_slope textbook slopes moves isRule
            rw [isCall slope moves] at ruleSlopes
            apply integrates_found
            rw [Antiderivative.substitute_rule isRule]
            exact ruleSlopes.div_const textbook nonzero

omit textbook in
theorem near_iff (first second : C) :
    constants.arithmetic.near (some first) (some second) = true ↔ first = second := by
  simp [Constants.arithmetic]

omit textbook in
theorem eq_const_of_isConst {number : C} {expression : Expr (Option C)}
    (isConst : constants.arithmetic.isConst (some number) expression = true) :
    expression = .const (some number) := by
  cases expression <;> simp_all [Arithmetic.isConst, Constants.arithmetic]

omit textbook in
theorem literal?_sound {exponent : Expr (Option C)} {number : Option C}
    (isLiteral : Antiderivative.literal? constants.arithmetic exponent = some number)
    (isValue : reading.value exponent = some element) :
    ∃ constant, number = some constant ∧ element = algebraMap C K constant := by
  unfold Antiderivative.literal? at isLiteral
  split at isLiteral
  · cases isLiteral
    rw [value, Option.map_eq_some_iff] at isValue
    obtain ⟨constant, rfl, rfl⟩ := isValue
    exact ⟨constant, rfl, rfl⟩
  · cases isLiteral
    obtain ⟨operand, isOperand, rfl⟩ := value_unary_eq_some isValue
    rw [value, Option.map_eq_some_iff] at isOperand
    obtain ⟨constant, rfl, rfl⟩ := isOperand
    exact ⟨-constant, rfl, by simp [unaryValue]⟩
  · cases isLiteral

theorem slope_ln_named : HasSlope constants reading name (.ln (.var name))
    (reading.unary .ln (reading.named name)) (1 / reading.named name) := by
  have nonzero := (moves_named textbook).ne_zero
  simpa using HasSlope.var.ln nonzero

theorem slope_exponential {base : Expr (Option C)}
    (isEuler : constants.arithmetic.isConst constants.arithmetic.euler base = true) :
    HasSlope constants reading name (base ^ (.var name : Expr (Option C)))
      (reading.binary .power (algebraMap C K constants.euler) (reading.named name))
      (reading.binary .power (algebraMap C K constants.euler) (reading.named name)) := by
  obtain rfl := eq_const_of_isConst isEuler
  have nonzero : algebraMap C K constants.euler ≠ 0 := by simpa using textbook.euler_ne_zero
  have slopes : HasSlope constants reading name _ _ _ :=
    (HasSlope.const constants.euler).exponential HasSlope.var nonzero (by simp [Expr.mentions])
  exact slopes.congr (by simp [textbook.ln_euler])

/-- The power rule, where the raised exponent is not zero. -/
theorem slope_power_div {exponent : C} (nonzero : exponent + 1 ≠ 0) :
    HasSlope constants reading name
      ((.var name : Expr (Option C)) ^ (.const (some (exponent + 1)) : Expr (Option C)) /
        .const (some (exponent + 1)))
      (reading.binary .power (reading.named name) (algebraMap C K (exponent + 1)) /
        algebraMap C K (exponent + 1))
      (reading.binary .power (reading.named name) (algebraMap C K exponent)) := by
  apply HasSlope.div_const textbook nonzero
  have slopes : HasSlope constants reading name _ _ _ :=
    HasSlope.var.power (HasSlope.const (exponent + 1)) rfl
  apply slopes.congr
  rw [map_add, map_one, add_sub_cancel_right]
  ring

theorem integrates_power {base exponent : Expr (Option C)}
    (isValue : reading.value (base ^ exponent) = some element) :
    Integrates constants reading name
      (Antiderivative.power constants.arithmetic name base exponent) element := by
  unfold Antiderivative.power
  split
  · next isExponential =>
      obtain ⟨isEuler, isVar⟩ := Bool.and_eq_true_iff.mp isExponential
      obtain rfl := Expr.eq_var_of_isVar isVar
      have slopes := slope_exponential textbook isEuler
      obtain rfl := Option.some.inj (isValue.symm.trans slopes.isValue)
      exact integrates_found slopes
  · split
    · next number isVar isLiteral =>
        obtain rfl := Expr.eq_var_of_isVar isVar
        obtain ⟨first, second, isFirst, isSecond, combined⟩ := value_binary_eq_some isValue
        obtain ⟨constant, rfl, rfl⟩ := literal?_sound isLiteral isSecond
        obtain rfl := Option.some.inj ((value_var name).symm.trans isFirst)
        obtain rfl := Option.some.inj combined
        split
        · next isMinusOne =>
            have exponent : algebraMap C K constant = ((-1 : ℤ) : K) := by
              simp [(near_iff _ _).mp isMinusOne]
            apply integrates_found
            apply (slope_ln_named textbook).congr
            rw [exponent, textbook.power_whole (.inl (moves_named textbook).ne_zero)]
            simp
        · next other =>
            have nonzero : constant + 1 ≠ 0 := by
              intro zero
              exact other ((near_iff _ _).mpr (by simpa using eq_neg_of_add_eq_zero_left zero))
            have raised : constants.arithmetic.add (some constant) constants.arithmetic.one =
                some (constant + 1) := by
              simp [Arithmetic.add, Arithmetic.one, Constants.arithmetic, Constants.binaryValue]
            rw [raised]
            exact integrates_found (slope_power_div textbook nonzero)
    · exact integrates_left isValue

/-- The logarithm rule, for a denominator that is affine. -/
theorem slope_ln_abs_div {denominator : Expr (Option C)} {u : K} {slope : C}
    (slopes : HasSlope constants reading name denominator u (algebraMap C K slope))
    (steep : slope ≠ 0) (nonzero : u ≠ 0) :
    HasSlope constants reading name (denominator.abs.ln / .const (some slope))
      (reading.unary .ln (reading.unary .abs u) / algebraMap C K slope) (1 / u) := by
  apply HasSlope.div_const textbook steep
  apply (slopes.lnAbs textbook nonzero).congr
  ring

/-- The arctangent rule. -/
theorem slope_atan_div {root : C} (positive : root ≠ 0)
    (nonzero : reading.named name ^ 2 + algebraMap C K root ^ 2 ≠ 0) :
    HasSlope constants reading name
      (.atan (.var name / .const (some root)) / .const (some root))
      (reading.unary .atan (reading.named name / algebraMap C K root) / algebraMap C K root)
      (1 / (reading.named name ^ 2 + algebraMap C K root ^ 2)) := by
  have invertible : algebraMap C K root ≠ 0 := by simpa using positive
  have inner : HasSlope constants reading name (.var name / .const (some root))
      (reading.named name / algebraMap C K root) (1 / algebraMap C K root) := by
    apply HasSlope.div_const textbook positive
    apply HasSlope.var.congr
    field_simp
  have sum : 1 + (reading.named name / algebraMap C K root) ^ 2 =
      (reading.named name ^ 2 + algebraMap C K root ^ 2) / algebraMap C K root ^ 2 := by
    field_simp
    ring
  have denominator : 1 + (reading.named name / algebraMap C K root) ^ 2 ≠ 0 := by
    rw [sum]
    exact div_ne_zero nonzero (pow_ne_zero 2 invertible)
  apply HasSlope.div_const textbook positive
  apply (inner.atan textbook denominator).congr
  rw [sum]
  field_simp

theorem value_named_square {base exponent : Expr (Option C)}
    (isSquare : (base.isVar name &&
      constants.arithmetic.isConst (constants.arithmetic.ofInt 2) exponent) = true)
    (isValue : reading.value (.binary .power base exponent) = some element) :
    element = reading.named name ^ 2 := by
  obtain ⟨isVar, isTwo⟩ := Bool.and_eq_true_iff.mp isSquare
  obtain rfl := Expr.eq_var_of_isVar isVar
  obtain rfl := eq_const_of_isConst isTwo
  exact Option.some.inj (isValue.symm.trans (value_square textbook (value_var name)))

/-- A denominator of the form `x ^ 2 + c`. -/
theorem squarePlus?_sound {denominator : Expr (Option C)} {number : C} {u : K}
    (isSquare : Antiderivative.squarePlus? constants.arithmetic name denominator =
      some (some number)) (isValue : reading.value denominator = some u) :
    u = reading.named name ^ 2 + algebraMap C K number := by
  unfold Antiderivative.squarePlus? at isSquare
  split at isSquare
  next first second =>
    obtain ⟨firstValue, secondValue, isFirst, isSecond, combined⟩ := value_binary_eq_some isValue
    obtain rfl := Option.some.inj combined
    dsimp only at isSquare
    split at isSquare
    next matched =>
      cases isSquare
      obtain rfl := Option.some.inj ((value_const number).symm.trans isSecond)
      split at matched
      next => rw [value_named_square textbook matched isFirst]
      next => cases matched
    next matched _ =>
      cases isSquare
      obtain rfl := Option.some.inj ((value_const number).symm.trans isFirst)
      split at matched
      next => rw [value_named_square textbook matched isSecond, add_comm]
      next => cases matched
    next => cases isSquare
  next => cases isSquare

omit textbook in
theorem value_one_div {numerator denominator : Expr (Option C)}
    (isOne : constants.arithmetic.isConst constants.arithmetic.one numerator = true)
    (isValue : reading.value (numerator / denominator) = some element) :
    ∃ u, reading.value denominator = some u ∧ u ≠ 0 ∧ 1 / u = element := by
  obtain ⟨first, u, isFirst, isDenominator, combined⟩ := value_binary_eq_some isValue
  obtain ⟨nonzero, isQuotient⟩ := Option.ite_none_left_eq_some.mp combined
  obtain rfl := eq_const_of_isConst isOne
  have one : first = 1 := by
    simpa using (Option.some.inj ((value_const (K := K) _).symm.trans isFirst)).symm
  refine ⟨u, isDenominator, nonzero, ?_⟩
  rw [← one]
  exact Option.some.inj isQuotient

theorem integrates_reciprocal {numerator denominator : Expr (Option C)}
    (isValue : reading.value (numerator / denominator) = some element) :
    Integrates constants reading name
      (Antiderivative.reciprocal constants.arithmetic name numerator denominator) element := by
  unfold Antiderivative.reciprocal
  split
  next isOne =>
    obtain ⟨u, isDenominator, nonzero, rfl⟩ := value_one_div isOne isValue
    obtain ⟨found, isFound, isAffine⟩ := exists_affine? textbook denominator
    apply Integrates.after isFound
    split
    next line isLine =>
      obtain ⟨isSome, isSteep⟩ := Option.filter_eq_some_iff.mp isLine
      obtain ⟨slope, intercept, rfl, slopes⟩ := isAffine line isSome
      have steep : slope ≠ 0 := by
        rintro rfl
        simp [Constants.arithmetic, Arithmetic.zero] at isSteep
      obtain rfl := Option.some.inj (isDenominator.symm.trans slopes.isValue)
      exact integrates_found (slope_ln_abs_div textbook slopes steep nonzero)
    next =>
      split
      next number isNumber =>
        obtain ⟨isSquare, isPositive⟩ := Option.filter_eq_some_iff.mp isNumber
        cases number with
        | none => simp [Constants.arithmetic] at isPositive
        | some number =>
            have positive : 0 < number := by simpa [Constants.arithmetic] using isPositive
            have root := textbook.sqrt_sq positive
            have rootNonzero : constants.sqrt number ≠ 0 := by
              intro zero
              rw [zero] at root
              simp at root
              exact positive.ne root
            obtain rfl := squarePlus?_sound textbook isSquare isDenominator
            have square : algebraMap C K number = algebraMap C K (constants.sqrt number) ^ 2 := by
              rw [← map_pow, root]
            rw [square] at nonzero ⊢
            exact integrates_found (slope_atan_div textbook rootNonzero nonzero)
      next => exact integrates_left isValue
  next => exact integrates_left isValue

omit [LinearOrder C] textbook in
/-- The variable times a function of it. -/
theorem value_named_mul {operator : UnaryOperator} (proper : operator ≠ .negate)
    (isValue : reading.value ((.var name : Expr (Option C)) * .unary operator (.var name)) =
      some element) :
    reading.named name * reading.unary operator (reading.named name) = element :=
  Option.some.inj ((value_mul (value_var name) (value_unary proper (value_var name))).symm.trans
    isValue)

theorem integrates_product {first second : Expr (Option C)}
    (isValue : reading.value (first * second) = some element) :
    Integrates constants reading name
      (Antiderivative.product constants.arithmetic name first second) element := by
  have unmatched : Integrates constants reading name
      (Antiderivative.left name (first * second) .product) element := integrates_left isValue
  have x : HasSlope constants reading name (.var name) (reading.named name) 1 := HasSlope.var
  have lowered := x.sub (HasSlope.number 1)
  unfold Antiderivative.product
  split
  next isVar =>
    obtain rfl := Expr.eq_var_of_isVar isVar
    split
    next operator operand =>
      split
      next isOperand =>
        obtain rfl := Expr.eq_var_of_isVar isOperand
        split
        next =>
          apply integrates_found
          apply (lowered.mul x.exp).congr
          rw [← value_named_mul (by decide) isValue]
          push_cast
          ring
        next =>
          apply integrates_found
          apply (x.sin.sub (x.mul x.cos)).congr
          rw [← value_named_mul (by decide) isValue]
          ring
        next =>
          apply integrates_found
          apply (x.cos.add (x.mul x.sin)).congr
          rw [← value_named_mul (by decide) isValue]
          ring
        next => exact unmatched
      next => exact unmatched
    next base exponent =>
      split
      next isExponential =>
        obtain ⟨isEuler, isVar⟩ := Bool.and_eq_true_iff.mp isExponential
        obtain rfl := Expr.eq_var_of_isVar isVar
        have exponential := slope_exponential textbook isEuler
        apply integrates_found
        apply (lowered.mul exponential).congr
        rw [← Option.some.inj ((value_mul (value_var name) exponential.isValue).symm.trans isValue)]
        push_cast
        ring
      next => exact unmatched
    next => exact unmatched
  next => exact unmatched

theorem integrates_quotient {numerator denominator : Expr (Option C)}
    (isValue : reading.value (numerator / denominator) = some element) :
    Integrates constants reading name
      (Antiderivative.quotient constants.arithmetic name numerator denominator) element := by
  unfold Antiderivative.quotient
  split
  next isInverse => 
    obtain ⟨isOne, isVar⟩ := Bool.and_eq_true_iff.mp isInverse
    obtain rfl := Expr.eq_var_of_isVar isVar
    obtain ⟨u, isDenominator, nonzero, rfl⟩ := value_one_div isOne isValue
    obtain rfl := Option.some.inj ((value_var name).symm.trans isDenominator)
    exact integrates_found (slope_ln_named textbook)
  next => exact integrates_reciprocal textbook isValue

omit textbook in
theorem integrates_free {expression : Expr (Option C)}
    (isValue : reading.value expression = some element)
    (free : expression.mentions name = false) :
    Integrates constants reading name
      (expression.antiderivative constants.arithmetic name) element := by
  have slopes : HasSlope constants reading name expression element 0 :=
    .of_not_mentions isValue free
  unfold Expr.antiderivative
  rw [if_pos (by simpa using free)]
  apply integrates_found
  apply (slopes.mul HasSlope.var).congr
  ring

theorem integrates_named [CharZero C] :
    Integrates constants reading name
      ((.var name : Expr (Option C)).antiderivative constants.arithmetic name)
      (reading.named name) := by
  have two : constants.arithmetic.number 2 = .const (some (1 + 1)) := by
    simp [Arithmetic.number, Constants.arithmetic, one_add_one_eq_two]
  have nonzero : (1 + 1 : C) ≠ 0 := by simp [one_add_one_eq_two]
  unfold Expr.antiderivative
  rw [if_neg (by simp [Expr.mentions]), if_pos (by simp [Expr.isVar]), two]
  apply integrates_found
  apply (slope_power_div textbook nonzero).congr
  simpa using textbook.power_whole (.inr (zero_le_one : (0 : ℤ) ≤ 1))

end Steps

/-- The derivative of the antiderivative of an expression is read as the expression. -/
theorem integrates_antiderivative [CharZero C] (textbook : IsTextbook constants reading name)
    {expression : Expr (Option C)} {element : K} (isValue : reading.value expression = some element) :
    Integrates constants reading name
      (expression.antiderivative constants.arithmetic name) element := by
  by_cases free : expression.mentions name = false
  · exact integrates_free isValue free
  by_cases isVar : expression.isVar name = true
  · obtain rfl := Expr.eq_var_of_isVar isVar
    obtain rfl := Option.some.inj ((value_var name).symm.trans isValue)
    exact integrates_named textbook
  have mentioned : ¬ (!expression.mentions name) = true := by simpa using free
  unfold Expr.antiderivative
  rw [if_neg mentioned, if_neg isVar]
  -- One case for each rule, in the order of the definition.
  split
  next left right =>
    obtain ⟨first, second, isFirst, isSecond, combined⟩ := value_binary_eq_some isValue
    obtain rfl := Option.some.inj combined
    exact (integrates_antiderivative textbook isFirst).combine
      (integrates_antiderivative textbook isSecond)
      fun _ _ _ _ leftSlopes rightSlopes => ⟨_, leftSlopes.add rightSlopes⟩
  next left right =>
    obtain ⟨first, second, isFirst, isSecond, combined⟩ := value_binary_eq_some isValue
    obtain rfl := Option.some.inj combined
    exact (integrates_antiderivative textbook isFirst).combine
      (integrates_antiderivative textbook isSecond)
      fun _ _ _ _ leftSlopes rightSlopes => ⟨_, leftSlopes.sub rightSlopes⟩
  next left right =>
    obtain ⟨first, second, isFirst, isSecond, combined⟩ := value_binary_eq_some isValue
    obtain rfl := Option.some.inj combined
    split
    next leftFree =>
      have scale : HasSlope constants reading name left first 0 :=
        .of_not_mentions isFirst (by simpa using leftFree)
      exact (integrates_antiderivative textbook isSecond).change fun _ _ slopes =>
        ⟨_, (scale.mul slopes).congr (by ring)⟩
    split
    next rightFree =>
      have scale : HasSlope constants reading name right second 0 :=
        .of_not_mentions isSecond (by simpa using rightFree)
      exact (integrates_antiderivative textbook isFirst).change fun _ _ slopes =>
        ⟨_, (scale.mul slopes).congr (by ring)⟩
    next => exact integrates_product textbook isValue
  next left right => exact integrates_quotient textbook isValue
  next left right => exact integrates_power textbook isValue
  next operand =>
    obtain ⟨inner, isInner, rfl⟩ := value_unary_eq_some isValue
    exact (integrates_antiderivative textbook isInner).change fun _ _ slopes => ⟨_, slopes.neg⟩
  next operator operand isNegate =>
    obtain ⟨inner, isInner, isElement⟩ := value_unary_eq_some isValue
    split
    next function isWord =>
      apply integrates_elementary textbook isValue isInner
      intro slope moves
      rw [textbook.call_word isWord moves, ← isElement, unaryValue, if_neg isNegate]
    next => exact integrates_left isValue
  next function argument =>
    have isCall := isValue
    rw [value, values] at isCall
    obtain ⟨inner, isInner, rest⟩ := Option.bind_eq_some_iff.mp isCall
    exact integrates_elementary textbook isValue isInner fun slope _ => Option.some.inj rest
  next => exact integrates_left isValue
  next => exact integrates_left isValue

/-- Every expression that has a reading is integrated, its antiderivative is
differentiated, and the result has the same reading.  The tree may hold markers of
unknown integrals. -/
theorem derivative_of_antiderivative [CharZero C] (textbook : IsTextbook constants reading name)
    {expression : Expr (Option C)} (isValue : reading.value expression = some element) :
    ∃ result derivative,
      (expression.antiderivative constants.arithmetic name).outcome = .ok result ∧
        result.tree.derivative constants.arithmetic name = .ok derivative ∧
          reading.value derivative = some element := by
  obtain ⟨result, isResult, _, slopes⟩ := integrates_antiderivative textbook isValue
  obtain ⟨derivative, isDerivative, isSlope⟩ := slopes.isSlope
  exact ⟨result, derivative, isResult, isDerivative, isSlope⟩

section Series

noncomputable def partlyIntegrable : Expr (Option ℝ) :=
  let number := Series.constants.arithmetic.number
  number 3 * (number 2 * .var "x" + number 1).sin - (.sin (.var "x") * .cos (.var "x"))

/-- Expressions in `x` as series.  The unknown integral is half the square of a sine. -/
noncomputable def seriesReading : Reading ℝ Series.Element :=
  Series.reading "x" 0 fun _ _ => Series.unary .sin Series.indeterminate ^ 2 / (2 : ℤ)

noncomputable def partlyIntegrableSeries : Series.Element :=
  (3 : ℤ) * Series.unary .sin ((2 : ℤ) * Series.indeterminate + (1 : ℤ)) -
    Series.unary .sin Series.indeterminate * Series.unary .cos Series.indeterminate

theorem value_partlyIntegrable :
    seriesReading.value partlyIntegrable = some partlyIntegrableSeries := by
  have x : seriesReading.value (.var "x") = some Series.indeterminate := by
    simp [seriesReading, Series.reading]
  have sine : UnaryOperator.sin ≠ .negate := by decide
  have cosine : UnaryOperator.cos ≠ .negate := by decide
  have inner := value_unary sine
    (value_add (value_mul (value_number Series.constants 2) x) (value_number Series.constants 1))
  exact value_sub (value_mul (value_number Series.constants 3) inner)
    (value_mul (value_unary sine x) (value_unary cosine x))

theorem derivative_of_antiderivative_partlyIntegrable :
    seriesReading.value partlyIntegrable = some partlyIntegrableSeries ∧
      ∃ result derivative,
        (partlyIntegrable.antiderivative Series.constants.arithmetic "x").outcome = .ok result ∧
          result.tree.derivative Series.constants.arithmetic "x" = .ok derivative ∧
            seriesReading.value derivative = some partlyIntegrableSeries :=
  ⟨value_partlyIntegrable,
    derivative_of_antiderivative Series.isTextbook value_partlyIntegrable⟩

end Series

end Reading

end ExprCalculus
