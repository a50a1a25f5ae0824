import ExprCalculus.Proofs.Calculus.Reading
import ExprCalculus.Proofs.Calculus.Rules
import Mathlib.Tactic.FieldSimp
import Mathlib.Tactic.Ring

/-!
# Readings of derivatives

An expression has a slope when its derivative exists and is read as that element.  The
rules of differentiation turn into rules for slopes, in which it no longer matters
whether the variable is mentioned: a part without the variable has slope zero.
-/

namespace ExprCalculus

namespace Reading

variable {C K : Type} [Field C] [Field K] [Algebra C K]

section Values

attribute [local simp] value values

variable {reading : Reading C K} {left right : Expr (Option C)}
  {first second : K}

@[simp]
theorem value_const (constant : C) :
    reading.value (.const (some constant)) = some (algebraMap C K constant) := by
  simp

@[simp]
theorem value_number [LinearOrder C] (constants : Constants C) (number : ℤ) :
    reading.value (constants.arithmetic.number number) = some (number : K) := by
  simp [Arithmetic.number, Constants.arithmetic]

@[simp]
theorem value_var (name : String) : reading.value (.var name) = some (reading.named name) := by
  simp

theorem value_neg (isFirst : reading.value left = some first) :
    reading.value (-left) = some (-first) := by
  change reading.value (.unary .negate left) = _
  simp [isFirst, unaryValue]

theorem value_unary {operator : UnaryOperator} (proper : operator ≠ .negate)
    (isFirst : reading.value left = some first) :
    reading.value (.unary operator left) = some (reading.unary operator first) := by
  simp [isFirst, unaryValue, proper]

theorem value_call {function : String} (isFirst : reading.value left = some first) :
    reading.value (.call function left []) = some (reading.call function [first]) := by
  simp [isFirst]

section Binary

variable (isFirst : reading.value left = some first) (isSecond : reading.value right = some second)

include isFirst isSecond

theorem value_add : reading.value (left + right) = some (first + second) := by
  change reading.value (.binary .add left right) = _
  simp [isFirst, isSecond, binaryValue]

theorem value_sub : reading.value (left - right) = some (first - second) := by
  change reading.value (.binary .subtract left right) = _
  simp [isFirst, isSecond, binaryValue]

theorem value_mul : reading.value (left * right) = some (first * second) := by
  change reading.value (.binary .multiply left right) = _
  simp [isFirst, isSecond, binaryValue]

theorem value_div (nonzero : second ≠ 0) :
    reading.value (left / right) = some (first / second) := by
  change reading.value (.binary .divide left right) = _
  simp [isFirst, isSecond, binaryValue, nonzero]

theorem value_power :
    reading.value (left ^ right) = some (reading.binary .power first second) := by
  change reading.value (.binary .power left right) = _
  simp [isFirst, isSecond, binaryValue]

end Binary

theorem value_binary_eq_some {operator : BinaryOperator} {element : K}
    (isValue : reading.value (.binary operator left right) = some element) :
    ∃ first second, reading.value left = some first ∧ reading.value right = some second ∧
      reading.binaryValue operator first second = some element := by
  rw [value] at isValue
  obtain ⟨first, isFirst, rest⟩ := Option.bind_eq_some_iff.mp isValue
  obtain ⟨second, isSecond, combined⟩ := Option.bind_eq_some_iff.mp rest
  exact ⟨first, second, isFirst, isSecond, combined⟩

theorem value_unary_eq_some {operator : UnaryOperator} {element : K}
    (isValue : reading.value (.unary operator left) = some element) :
    ∃ first, reading.value left = some first ∧ reading.unaryValue operator first = element := by
  rw [value] at isValue
  exact Option.map_eq_some_iff.mp isValue

end Values

section Slopes

variable [LinearOrder C]

/-- An expression is read as an element, and its derivative as its slope. -/
structure HasSlope (constants : Constants C) (reading : Reading C K) (name : String)
    (expression : Expr (Option C)) (element slope : K) : Prop where
  isValue : reading.value expression = some element
  free : expression.mentions name = false → slope = 0
  isSlope : ∃ derivative, expression.derivative constants.arithmetic name = .ok derivative ∧
    reading.value derivative = some slope

variable {constants : Constants C} {reading : Reading C K} {name : String}
  {left right : Expr (Option C)} {first firstSlope second secondSlope : K}

theorem value_square (textbook : IsTextbook constants reading name)
    (isFirst : reading.value left = some first) :
    reading.value (left ^ constants.arithmetic.number 2) = some (first ^ 2) := by
  rw [value_power isFirst (value_number constants 2), textbook.power_whole (.inr zero_le_two), zpow_ofNat]

theorem HasSlope.of_not_mentions (isValue : reading.value left = some first)
    (free : left.mentions name = false) : HasSlope constants reading name left first 0 where
  isValue := isValue
  free _ := rfl
  isSlope := ⟨_, Expr.derivative_of_not_mentions free, by simp⟩

theorem HasSlope.congr {slope : K} (slopes : HasSlope constants reading name left first firstSlope)
    (same : firstSlope = slope) : HasSlope constants reading name left first slope :=
  same ▸ slopes

/-- The derivative matters only where the variable is mentioned. -/
theorem HasSlope.of_mentions (isValue : reading.value left = some first)
    (free : left.mentions name = false → firstSlope = 0)
    (isSlope : left.mentions name = true → ∃ derivative,
      left.derivative constants.arithmetic name = .ok derivative ∧
        reading.value derivative = some firstSlope) :
    HasSlope constants reading name left first firstSlope := by
  refine ⟨isValue, free, ?_⟩
  cases mentioned : left.mentions name with
  | true => exact isSlope mentioned
  | false =>
      rw [free mentioned]
      exact ⟨_, Expr.derivative_of_not_mentions mentioned, by simp⟩

theorem HasSlope.const (constant : C) : HasSlope constants reading name
    (.const (some constant)) (algebraMap C K constant) 0 :=
  .of_not_mentions (value_const constant) rfl

theorem HasSlope.number (number : ℤ) : HasSlope constants reading name
    (constants.arithmetic.number number) (number : K) 0 :=
  .of_not_mentions (value_number constants number) rfl

theorem HasSlope.var : HasSlope constants reading name (.var name) (reading.named name) 1 where
  isValue := value_var name
  free := by simp [Expr.mentions]
  isSlope := ⟨_, Expr.derivative_var_self, by simp⟩

theorem HasSlope.integral {integrand : Expr (Option C)}
    (isValue : reading.value integrand = some first) :
    HasSlope constants reading name (.integral integrand name) (reading.marker integrand name)
      first where
  isValue := by simp [value]
  free := by simp [Expr.mentions]
  isSlope := ⟨_, Expr.derivative_integral_self, isValue⟩

section Unary

variable (slopes : HasSlope constants reading name left first firstSlope)

include slopes

theorem HasSlope.neg : HasSlope constants reading name (-left) (-first) (-firstSlope) := by
  apply HasSlope.of_mentions (value_neg slopes.isValue)
  · intro free
    simp [slopes.free free]
  · intro mentioned
    obtain ⟨derivative, isDerivative, isSlope⟩ := slopes.isSlope
    exact ⟨_, Expr.derivative_neg isDerivative mentioned, value_neg isSlope⟩

/-- An operator of the table of derivatives. -/
theorem HasSlope.unary {operator : UnaryOperator} {word : String}
    {rule : Expr (Option C) → Expr (Option C) → Expr (Option C)} {slope : K}
    (isWord : operator.word? = some word)
    (isRule : Derivative.rule? constants.arithmetic word = some rule)
    (isSlope : ∀ derivative, reading.value derivative = some firstSlope →
      reading.value (rule left derivative) = some (slope * firstSlope)) :
    HasSlope constants reading name (.unary operator left) (reading.unary operator first)
      (slope * firstSlope) := by
  have proper : operator ≠ .negate := by
    rintro rfl
    cases isWord
  apply HasSlope.of_mentions (value_unary proper slopes.isValue)
  · intro free
    rw [slopes.free free, mul_zero]
  · intro mentioned
    obtain ⟨derivative, isDerivative, isFirst⟩ := slopes.isSlope
    refine ⟨rule left derivative, Expr.derivative_unary isDerivative ?_ mentioned,
      isSlope derivative isFirst⟩
    rw [Derivative.unary, isWord, Option.bind_some, isRule]
    exact proper

/-- A call of a function of the table of derivatives. -/
theorem HasSlope.call {function : String}
    {rule : Expr (Option C) → Expr (Option C) → Expr (Option C)} {slope : K}
    (isRule : Derivative.rule? constants.arithmetic function = some rule)
    (isSlope : ∀ derivative, reading.value derivative = some firstSlope →
      reading.value (rule left derivative) = some (slope * firstSlope)) :
    HasSlope constants reading name (.call function left []) (reading.call function [first])
      (slope * firstSlope) := by
  apply HasSlope.of_mentions (value_call slopes.isValue)
  · intro free
    rw [slopes.free (Bool.or_eq_false_iff.mp free).1, mul_zero]
  · intro mentioned
    obtain ⟨derivative, isDerivative, isFirst⟩ := slopes.isSlope
    have inOperand : left.mentions name = true := by
      simpa [Expr.mentions, Expr.mentionsAny] using mentioned
    exact ⟨_, Expr.derivative_call isRule isDerivative inOperand, isSlope derivative isFirst⟩

end Unary

section Binary

variable (slopes : HasSlope constants reading name left first firstSlope)
  (otherSlopes : HasSlope constants reading name right second secondSlope)

include slopes otherSlopes

theorem HasSlope.free_both (free : (left.mentions name || right.mentions name) = false) :
    firstSlope = 0 ∧ secondSlope = 0 :=
  ⟨slopes.free (Bool.or_eq_false_iff.mp free).1,
    otherSlopes.free (Bool.or_eq_false_iff.mp free).2⟩

/-- An operator has a slope if the slope is zero where those of the operands are, and if the
derivative is made from theirs otherwise. -/
theorem HasSlope.binary {operator : BinaryOperator} {element slope : K}
    (isValue : reading.value (.binary operator left right) = some element)
    (still : firstSlope = 0 → secondSlope = 0 → slope = 0)
    (isSlope : ∀ derivative otherDerivative,
      left.derivative constants.arithmetic name = .ok derivative →
      right.derivative constants.arithmetic name = .ok otherDerivative →
      reading.value derivative = some firstSlope →
      reading.value otherDerivative = some secondSlope →
      (left.mentions name || right.mentions name) = true →
      ∃ result, (Expr.binary operator left right).derivative constants.arithmetic name = .ok result ∧
        reading.value result = some slope) :
    HasSlope constants reading name (.binary operator left right) element slope := by
  apply HasSlope.of_mentions isValue
  · intro free
    obtain ⟨firstStill, secondStill⟩ := slopes.free_both otherSlopes free
    exact still firstStill secondStill
  · intro mentioned
    obtain ⟨derivative, isDerivative, isFirst⟩ := slopes.isSlope
    obtain ⟨otherDerivative, isOther, isSecond⟩ := otherSlopes.isSlope
    exact isSlope derivative otherDerivative isDerivative isOther isFirst isSecond mentioned

theorem HasSlope.add : HasSlope constants reading name (left + right) (first + second)
    (firstSlope + secondSlope) := by
  apply slopes.binary otherSlopes (value_add slopes.isValue otherSlopes.isValue) (by simp_all)
  intro derivative otherDerivative isDerivative isOther isFirst isSecond mentioned
  exact ⟨_, Expr.derivative_add isDerivative isOther mentioned, value_add isFirst isSecond⟩

theorem HasSlope.sub : HasSlope constants reading name (left - right) (first - second)
    (firstSlope - secondSlope) := by
  apply slopes.binary otherSlopes (value_sub slopes.isValue otherSlopes.isValue) (by simp_all)
  intro derivative otherDerivative isDerivative isOther isFirst isSecond mentioned
  exact ⟨_, Expr.derivative_sub isDerivative isOther mentioned, value_sub isFirst isSecond⟩

theorem HasSlope.mul : HasSlope constants reading name (left * right) (first * second)
    (firstSlope * second + first * secondSlope) := by
  apply slopes.binary otherSlopes (value_mul slopes.isValue otherSlopes.isValue) (by simp_all)
  intro derivative otherDerivative isDerivative isOther isFirst isSecond mentioned
  exact ⟨_, Expr.derivative_mul isDerivative isOther mentioned,
    value_add (value_mul isFirst otherSlopes.isValue) (value_mul slopes.isValue isSecond)⟩

theorem HasSlope.div (textbook : IsTextbook constants reading name) (nonzero : second ≠ 0) :
    HasSlope constants reading name (left / right) (first / second)
      ((firstSlope * second - first * secondSlope) / second ^ 2) := by
  apply slopes.binary otherSlopes (value_div slopes.isValue otherSlopes.isValue nonzero)
    (by simp_all)
  intro derivative otherDerivative isDerivative isOther isFirst isSecond mentioned
  have numerator := value_sub (value_mul isFirst otherSlopes.isValue)
    (value_mul slopes.isValue isSecond)
  have square := value_square textbook otherSlopes.isValue
  exact ⟨_, Expr.derivative_div isDerivative isOther mentioned,
    value_div numerator square (pow_ne_zero 2 nonzero)⟩

/-- A power with an exponent free of the variable. -/
theorem HasSlope.power (isFree : right.mentions name = false) :
    HasSlope constants reading name (left ^ right) (reading.binary .power first second)
      (second * reading.binary .power first (second - 1) * firstSlope) := by
  apply slopes.binary otherSlopes (value_power slopes.isValue otherSlopes.isValue) (by simp_all)
  intro derivative _ isDerivative _ isFirst _ mentioned
  have inBase : left.mentions name = true := by
    simpa [isFree] using mentioned
  have lowered : reading.value (right - constants.arithmetic.number 1) = some (second - 1) := by
    simpa using value_sub otherSlopes.isValue (value_number constants 1)
  exact ⟨_, Expr.derivative_power isDerivative inBase isFree,
    value_mul (value_mul otherSlopes.isValue (value_power slopes.isValue lowered)) isFirst⟩

/-- A power with an exponent that mentions the variable. -/
theorem HasSlope.exponential (nonzero : first ≠ 0) (mentions : right.mentions name = true) :
    HasSlope constants reading name (left ^ right) (reading.binary .power first second)
      (reading.binary .power first second *
        (secondSlope * reading.unary .ln first + second * (firstSlope / first))) := by
  apply slopes.binary otherSlopes (value_power slopes.isValue otherSlopes.isValue) (by simp_all)
  intro derivative otherDerivative isDerivative isOther isFirst isSecond _
  have relative := value_div isFirst slopes.isValue nonzero
  exact ⟨_, Expr.derivative_exponential isDerivative isOther mentions,
    value_mul (value_power slopes.isValue otherSlopes.isValue)
      (value_add (value_mul isSecond (value_unary (by decide) slopes.isValue))
        (value_mul otherSlopes.isValue relative))⟩

end Binary

end Slopes

end Reading

end ExprCalculus
