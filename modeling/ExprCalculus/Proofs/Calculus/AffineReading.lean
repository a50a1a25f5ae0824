import ExprCalculus.Proofs.Calculus.ReadSlopes
import ExprCalculus.Proofs.Outcomes

/-!
# Readings of affine expressions

A part without variables that has a finite value is read as that value.  An expression
whose shape shows it to be affine in the variable is read as the affine element with
these numbers, and its derivative as the slope.
-/

namespace ExprCalculus

namespace Reading

variable {C K : Type} [Field C] [LinearOrder C] [Field K] [Algebra C K]
  {constants : Constants C} {reading : Reading C K} {name : String}

section ClosedValues

/-- A function called by name is one of the constants, at defined arguments. -/
theorem call_const (textbook : IsTextbook constants reading name) {function : String}
    {arguments : List (Option C)} {result : C}
    (applied : constants.arithmetic.callByName [] function arguments = .ok (some result)) :
    ∃ numbers : List C, arguments = numbers.map some ∧
      reading.call function (numbers.map (algebraMap C K)) = algebraMap C K result := by
  rw [Arithmetic.callByName] at applied
  split at applied
  · next named isNamed =>
      obtain ⟨open?, isOpen, rfl⟩ := Option.map_eq_some_iff.mp isNamed
      match open?, arguments with
      | .one apply, [argument] =>
          obtain ⟨number, rfl, isResult⟩ :=
            Option.bind_eq_some_iff.mp (Except.ok.inj applied)
          exact ⟨[number], rfl, textbook.call_one isOpen isResult⟩
      | .two apply, [first, second] =>
          obtain ⟨left, rfl, rest⟩ := Option.bind_eq_some_iff.mp (Except.ok.inj applied)
          obtain ⟨right, rfl, isResult⟩ := Option.bind_eq_some_iff.mp rest
          exact ⟨[left, right], rfl, textbook.call_two isOpen isResult⟩
      | .one _, [] | .one _, _ :: _ :: _ => cases applied
      | .two _, [] | .two _, [_] | .two _, _ :: _ :: _ :: _ => cases applied
  · simp [FunctionEnvironment.lookup?] at applied

mutual

/-- A value without bindings is the reading. -/
theorem value_of_evaluate (textbook : IsTextbook constants reading name)
    {expression : Expr (Option C)} {result : C}
    (evaluated : expression.evaluate constants.arithmetic [] (fun _ => none) = .ok (some result)) :
    reading.value expression = some (algebraMap C K result) := by
  match expression with
  | .const constant =>
      cases evaluated
      exact value_const result
  | .var _ => cases evaluated
  | .unary operator operand =>
      obtain ⟨argument, isArgument, applied⟩ := except_bind_eq_ok.mp evaluated
      obtain ⟨number, rfl, isResult⟩ := Option.bind_eq_some_iff.mp (Except.ok.inj applied)
      have operandValue := value_of_evaluate textbook isArgument
      rw [value, operandValue, Option.map_some, unaryValue]
      rw [Constants.unaryValue] at isResult
      split at isResult
      · next isNegate =>
          cases isResult
          rw [if_pos isNegate, map_neg]
      · next proper => rw [if_neg proper, textbook.unary_const isResult]
  | .binary operator left right =>
      obtain ⟨leftResult, isLeft, rest⟩ := except_bind_eq_ok.mp evaluated
      obtain ⟨rightResult, isRight, combined⟩ := except_bind_eq_ok.mp rest
      obtain ⟨first, rfl, more⟩ := Option.bind_eq_some_iff.mp (Except.ok.inj combined)
      obtain ⟨second, rfl, isResult⟩ := Option.bind_eq_some_iff.mp more
      have leftValue := value_of_evaluate textbook isLeft
      have rightValue := value_of_evaluate textbook isRight
      rw [value, leftValue, rightValue, Option.bind_some, Option.bind_some]
      cases operator <;> simp only [Constants.binaryValue, binaryValue] at isResult ⊢
      case divide =>
        obtain ⟨nonzero, isQuotient⟩ := Option.ite_none_left_eq_some.mp isResult
        cases isQuotient
        simp [nonzero]
      case power => rw [textbook.binary_const isResult]
      case modulo => rw [textbook.binary_const isResult]
      case logBase => rw [textbook.binary_const isResult]
      all_goals
        cases isResult
        simp
  | .call function first others =>
      obtain ⟨argument, isArgument, rest⟩ := except_bind_eq_ok.mp evaluated
      obtain ⟨arguments, areArguments, applied⟩ := except_bind_eq_ok.mp rest
      obtain ⟨numbers, shape, isResult⟩ := call_const textbook applied
      cases numbers with
      | nil => cases shape
      | cons number numbers =>
          obtain ⟨rfl, rfl⟩ := List.cons_eq_cons.mp shape
          rw [value, value_of_evaluate textbook isArgument,
            values_of_evaluateAll textbook areArguments]
          exact congrArg some isResult
  | .integral _ _ => cases evaluated

theorem values_of_evaluateAll (textbook : IsTextbook constants reading name)
    {expressions : List (Expr (Option C))} {results : List C}
    (evaluated : Expr.evaluateAll constants.arithmetic [] (fun _ => none) expressions =
      .ok (results.map some)) :
    reading.values expressions = some (results.map (algebraMap C K)) := by
  match expressions with
  | [] =>
      cases results with
      | nil => simp [values]
      | cons result results => cases evaluated
  | expression :: rest =>
      obtain ⟨head, isHead, more⟩ := except_bind_eq_ok.mp evaluated
      obtain ⟨tail, isTail, shape⟩ := except_bind_eq_ok.mp more
      cases results with
      | nil => cases shape
      | cons result results =>
          obtain ⟨rfl, rfl⟩ := List.cons_eq_cons.mp (Except.ok.inj shape)
          simp [values, value_of_evaluate textbook isHead, values_of_evaluateAll textbook isTail]

end

theorem callByName_ordinary {function : String} {arguments : List (Option C)}
    {fault : EvaluationFault (Option C)}
    (failed : constants.arithmetic.callByName [] function arguments = .error fault) :
    fault.isOrdinary = true := by
  rw [Arithmetic.callByName] at failed
  split at failed
  · next named isNamed =>
      obtain ⟨open?, isOpen, rfl⟩ := Option.map_eq_some_iff.mp isNamed
      match open?, arguments with
      | .one _, [] | .one _, [_] | .one _, _ :: _ :: _ => cases failed <;> rfl
      | .two _, [] | .two _, [_] | .two _, [_, _] | .two _, _ :: _ :: _ :: _ =>
          cases failed <;> rfl
  · simp only [FunctionEnvironment.lookup?] at failed
    cases failed
    rfl

mutual

/-- Exact arithmetic has ordinary faults only. -/
theorem evaluate_ordinary {expression : Expr (Option C)} {fault : EvaluationFault (Option C)}
    (failed : expression.evaluate constants.arithmetic [] (fun _ => none) = .error fault) :
    fault.isOrdinary = true := by
  match expression with
  | .const _ => cases failed
  | .var _ =>
      cases failed
      rfl
  | .unary operator operand =>
      rcases except_bind_eq_error.mp failed with inOperand | ⟨argument, -, atRoot⟩
      · exact evaluate_ordinary inOperand
      · cases atRoot
  | .binary operator left right =>
      rcases except_bind_eq_error.mp failed with inLeft | ⟨first, -, rest⟩
      · exact evaluate_ordinary inLeft
      rcases except_bind_eq_error.mp rest with inRight | ⟨second, -, atRoot⟩
      · exact evaluate_ordinary inRight
      · cases atRoot
  | .call function first others =>
      rcases except_bind_eq_error.mp failed with inFirst | ⟨head, -, rest⟩
      · exact evaluate_ordinary inFirst
      rcases except_bind_eq_error.mp rest with inOthers | ⟨tail, -, atRoot⟩
      · exact evaluateAll_ordinary inOthers
      · exact callByName_ordinary atRoot
  | .integral _ _ =>
      cases failed
      rfl

theorem evaluateAll_ordinary {expressions : List (Expr (Option C))}
    {fault : EvaluationFault (Option C)}
    (failed : Expr.evaluateAll constants.arithmetic [] (fun _ => none) expressions =
      .error fault) : fault.isOrdinary = true := by
  match expressions with
  | [] => cases failed
  | expression :: rest =>
      rcases except_bind_eq_error.mp failed with inHead | ⟨head, -, more⟩
      · exact evaluate_ordinary inHead
      rcases except_bind_eq_error.mp more with inTail | ⟨tail, -, atRoot⟩
      · exact evaluateAll_ordinary inTail
      · cases atRoot

end

/-- The search for a finite value never fails, and the value that it finds is the
reading. -/
theorem finiteValue?_sound (textbook : IsTextbook constants reading name)
    (expression : Expr (Option C)) :
    ∃ found, expression.finiteValue? constants.arithmetic = .ok found ∧
      ∀ value, found = some value → ∃ number, value = some number ∧
        reading.value expression = some (algebraMap C K number) ∧
        expression.mentions name = false := by
  rw [Expr.finiteValue?]
  split
  · next isConstant =>
      split
      · next value evaluated =>
          refine ⟨_, rfl, ?_⟩
          intro other isOther
          cases value with
          | none => simp [Constants.arithmetic] at isOther
          | some number =>
              refine ⟨number, by simpa [Constants.arithmetic] using isOther.symm,
                value_of_evaluate textbook evaluated, ?_⟩
              exact Expr.not_mentions_of_isConstant isConstant
      · next fault failed =>
          rw [if_pos (evaluate_ordinary failed)]
          exact ⟨none, rfl, by simp⟩
  · exact ⟨none, rfl, by simp⟩

end ClosedValues

section Affine

/-- If a search finds an affine expression, then the given expression is read as it, and
its derivative as the slope. -/
def AffineAs (constants : Constants C) (reading : Reading C K) (name : String)
    (expression : Expr (Option C)) (found : Option (Affine (Option C))) : Prop :=
  ∀ line, found = some line → ∃ slope intercept, line = ⟨some slope, some intercept⟩ ∧
    HasSlope constants reading name expression
      (algebraMap C K slope * reading.named name + algebraMap C K intercept)
      (algebraMap C K slope)

theorem affineAs_none (expression : Expr (Option C)) :
    AffineAs constants reading name expression none :=
  nofun

theorem affineAs_var : AffineAs constants reading name (.var name)
    (some ⟨constants.arithmetic.one, constants.arithmetic.zero⟩) := by
  intro line isLine
  cases isLine
  refine ⟨1, 0, by simp [Arithmetic.one, Arithmetic.zero, Constants.arithmetic], ?_⟩
  simpa using HasSlope.var

variable {left right : Expr (Option C)} {first second : Option (Affine (Option C))}

/-- An expression is read as the line with a slope and an intercept. -/
abbrev ReadsAsLine (constants : Constants C) (reading : Reading C K) (name : String)
    (expression : Expr (Option C)) (slope intercept : C) : Prop :=
  HasSlope constants reading name expression
    (algebraMap C K slope * reading.named name + algebraMap C K intercept)
    (algebraMap C K slope)

/-- The slope and the intercept of an affine expression are mapped. -/
theorem AffineAs.map {expression : Expr (Option C)} {image : Option C → Option C}
    (onConstants : C → C) (isImage : ∀ number, image (some number) = some (onConstants number))
    (isAffine : AffineAs constants reading name left first)
    (readsAsLine : ∀ slope intercept, ReadsAsLine constants reading name left slope intercept →
      ReadsAsLine constants reading name expression (onConstants slope) (onConstants intercept)) :
    AffineAs constants reading name expression (first.map (Affine.map image)) := by
  intro line isLine
  obtain ⟨inner, isInner, rfl⟩ := Option.map_eq_some_iff.mp isLine
  obtain ⟨slope, intercept, rfl, isSlope⟩ := isAffine inner isInner
  refine ⟨onConstants slope, onConstants intercept, ?_, readsAsLine slope intercept isSlope⟩
  rw [Affine.map, isImage, isImage]

/-- The slopes and the intercepts of two affine expressions are combined. -/
theorem AffineAs.combine {expression : Expr (Option C)}
    {plus : Affine (Option C) → Affine (Option C) → Affine (Option C)} (onConstants : C → C → C)
    (isPlus : ∀ slope intercept otherSlope otherIntercept,
      plus ⟨some slope, some intercept⟩ ⟨some otherSlope, some otherIntercept⟩ =
        ⟨some (onConstants slope otherSlope), some (onConstants intercept otherIntercept)⟩)
    (isFirst : AffineAs constants reading name left first)
    (isSecond : AffineAs constants reading name right second)
    (readsAsLine : ∀ slope intercept otherSlope otherIntercept,
      ReadsAsLine constants reading name left slope intercept →
      ReadsAsLine constants reading name right otherSlope otherIntercept →
      ReadsAsLine constants reading name expression (onConstants slope otherSlope)
        (onConstants intercept otherIntercept)) :
    AffineAs constants reading name expression
      (first.bind fun one => second.map (plus one)) := by
  intro line isLine
  obtain ⟨one, isOne, mapped⟩ := Option.bind_eq_some_iff.mp isLine
  obtain ⟨other, isOther, rfl⟩ := Option.map_eq_some_iff.mp mapped
  obtain ⟨slope, intercept, rfl, isSlope⟩ := isFirst one isOne
  obtain ⟨otherSlope, otherIntercept, rfl, isOtherSlope⟩ := isSecond other isOther
  exact ⟨_, _, isPlus _ _ _ _, readsAsLine _ _ _ _ isSlope isOtherSlope⟩

theorem AffineAs.neg (isAffine : AffineAs constants reading name left first) :
    AffineAs constants reading name (-left)
      (first.map (Affine.map constants.arithmetic.neg)) := by
  refine isAffine.map Neg.neg (fun _ => rfl) fun slope intercept slopes => ?_
  convert slopes.neg using 1
  · simp only [map_neg]
    ring
  · exact map_neg _ _

theorem AffineAs.add (isFirst : AffineAs constants reading name left first)
    (isSecond : AffineAs constants reading name right second) :
    AffineAs constants reading name (left + right)
      (first.bind fun one => second.map (Affine.plus constants.arithmetic 1 one)) := by
  refine isFirst.combine (· + ·) ?_ isSecond fun _ _ _ _ slopes otherSlopes => ?_
  · simp [Affine.plus, Affine.map, Arithmetic.add, Arithmetic.mul, Constants.arithmetic,
      Constants.binaryValue]
  · convert slopes.add otherSlopes using 1
    · simp only [map_add]
      ring
    · exact map_add _ _ _

theorem AffineAs.sub (isFirst : AffineAs constants reading name left first)
    (isSecond : AffineAs constants reading name right second) :
    AffineAs constants reading name (left - right)
      (first.bind fun one => second.map (Affine.plus constants.arithmetic (-1) one)) := by
  refine isFirst.combine (· - ·) ?_ isSecond fun _ _ _ _ slopes otherSlopes => ?_
  · simp [Affine.plus, Affine.map, Arithmetic.add, Arithmetic.mul, Constants.arithmetic,
      Constants.binaryValue, sub_eq_add_neg]
  · convert slopes.sub otherSlopes using 1
    · simp only [map_sub]
      ring
    · exact map_sub _ _ _

theorem AffineAs.scale {scale : C} (isScale : reading.value left = some (algebraMap C K scale))
    (free : left.mentions name = false)
    (isAffine : AffineAs constants reading name right second) :
    AffineAs constants reading name (left * right)
      (second.map (Affine.map (constants.arithmetic.mul (some scale)))) := by
  refine isAffine.map (scale * ·) (fun _ => rfl) fun slope intercept slopes => ?_
  convert (HasSlope.of_not_mentions isScale free).mul slopes using 1
  · simp only [map_mul]
    ring
  · simp

theorem AffineAs.scaleRight {scale : C}
    (isScale : reading.value right = some (algebraMap C K scale))
    (free : right.mentions name = false)
    (isAffine : AffineAs constants reading name left first) :
    AffineAs constants reading name (left * right)
      (first.map (Affine.map (constants.arithmetic.mul (some scale)))) := by
  refine isAffine.map (scale * ·) (fun _ => rfl) fun slope intercept slopes => ?_
  convert slopes.mul (HasSlope.of_not_mentions isScale free) using 1
  · simp only [map_mul]
    ring
  · simp [mul_comm]

theorem AffineAs.div (textbook : IsTextbook constants reading name) {divisor : C}
    (isDivisor : reading.value right = some (algebraMap C K divisor))
    (free : right.mentions name = false) (nonzero : divisor ≠ 0)
    (isAffine : AffineAs constants reading name left first) :
    AffineAs constants reading name (left / right)
      (first.map (Affine.map fun number => constants.arithmetic.div number (some divisor))) := by
  have invertible : algebraMap C K divisor ≠ 0 := by simpa using nonzero
  refine isAffine.map (· / divisor) ?_ fun slope intercept slopes => ?_
  · simp [Arithmetic.div, Constants.arithmetic, Constants.binaryValue, nonzero]
  · convert slopes.div (HasSlope.of_not_mentions isDivisor free) textbook invertible using 1
    · simp only [map_div₀]
      ring
    · rw [map_div₀]
      field_simp
      ring

section Scaled

variable (textbook : IsTextbook constants reading name)
include textbook

/-- A product is affine if one of its factors has a finite value and the other one is affine. -/
theorem exists_affine?_mul (mentioned : (Expr.binary .multiply left right).mentions name = true)
    (isFirst : left.affine? constants.arithmetic name = .ok first)
    (leftAffine : AffineAs constants reading name left first)
    (isSecond : right.affine? constants.arithmetic name = .ok second)
    (rightAffine : AffineAs constants reading name right second) :
    ∃ found, (Expr.binary .multiply left right).affine? constants.arithmetic name = .ok found ∧
      AffineAs constants reading name (.binary .multiply left right) found := by
  have isVar : (Expr.binary .multiply left right).isVar name = false := rfl
  obtain ⟨leftFound, isLeft, leftFinite⟩ := finiteValue?_sound textbook left
  obtain ⟨rightFound, isRight, rightFinite⟩ := finiteValue?_sound textbook right
  cases leftFound with
  | some value =>
      obtain ⟨scale, rfl, isScale, free⟩ := leftFinite value rfl
      exact ⟨_, by simp [Expr.affine?, isVar, mentioned, isLeft, isSecond],
        rightAffine.scale isScale free⟩
  | none =>
      cases rightFound with
      | some value =>
          obtain ⟨scale, rfl, isScale, free⟩ := rightFinite value rfl
          exact ⟨_, by simp [Expr.affine?, isVar, mentioned, isLeft, isRight, isFirst],
            leftAffine.scaleRight isScale free⟩
      | none =>
          exact ⟨none, by simp [Expr.affine?, isVar, mentioned, isLeft, isRight],
            affineAs_none _⟩

/-- A quotient is affine if its divisor has a finite value other than zero and its dividend is
affine. -/
theorem exists_affine?_div (mentioned : (Expr.binary .divide left right).mentions name = true)
    (isFirst : left.affine? constants.arithmetic name = .ok first)
    (leftAffine : AffineAs constants reading name left first) :
    ∃ found, (Expr.binary .divide left right).affine? constants.arithmetic name = .ok found ∧
      AffineAs constants reading name (.binary .divide left right) found := by
  have isVar : (Expr.binary .divide left right).isVar name = false := rfl
  obtain ⟨rightFound, isRight, rightFinite⟩ := finiteValue?_sound textbook right
  cases rightFound with
  | some value =>
      obtain ⟨divisor, rfl, isDivisor, free⟩ := rightFinite value rfl
      by_cases zero : divisor = 0
      · have isZero : constants.arithmetic.isZero (some divisor) = true := by
          simp [Constants.arithmetic, zero]
        exact ⟨none, by simp [Expr.affine?, isVar, mentioned, isRight, isZero],
          affineAs_none _⟩
      · have notZero : constants.arithmetic.isZero (some divisor) = false := by
          simp [Constants.arithmetic, zero]
        exact ⟨_, by simp [Expr.affine?, isVar, mentioned, isRight, notZero, isFirst],
          leftAffine.div textbook isDivisor free zero⟩
  | none =>
      exact ⟨none, by simp [Expr.affine?, isVar, mentioned, isRight], affineAs_none _⟩

end Scaled

/-- The search for an affine expression never fails, and it finds what the expression is
read as. -/
theorem exists_affine? (textbook : IsTextbook constants reading name)
    (expression : Expr (Option C)) :
    ∃ found, expression.affine? constants.arithmetic name = .ok found ∧
      AffineAs constants reading name expression found := by
  by_cases isVar : expression.isVar name = true
  · obtain rfl := Expr.eq_var_of_isVar isVar
    exact ⟨_, by simp [Expr.affine?, Expr.isVar], affineAs_var⟩
  by_cases mentioned : expression.mentions name = true
  · match expression with
    | .const _ => cases mentioned
    | .var other => exact absurd mentioned isVar
    | .unary operator operand =>
        obtain ⟨found, isFound, isAffine⟩ := exists_affine? textbook operand
        cases operator
        case negate =>
          exact ⟨_, by simp [Expr.affine?, isVar, mentioned, isFound], isAffine.neg⟩
        all_goals exact ⟨none, by simp [Expr.affine?, isVar, mentioned], affineAs_none _⟩
    | .binary operator left right =>
        obtain ⟨first, isFirst, leftAffine⟩ := exists_affine? textbook left
        obtain ⟨second, isSecond, rightAffine⟩ := exists_affine? textbook right
        cases operator
        case add =>
          exact ⟨_, by simp [Expr.affine?, isVar, mentioned, isFirst, isSecond],
            leftAffine.add rightAffine⟩
        case subtract =>
          exact ⟨_, by simp [Expr.affine?, isVar, mentioned, isFirst, isSecond],
            leftAffine.sub rightAffine⟩
        case multiply =>
          exact exists_affine?_mul textbook mentioned isFirst leftAffine isSecond rightAffine
        case divide => exact exists_affine?_div textbook mentioned isFirst leftAffine
        all_goals exact ⟨none, by simp [Expr.affine?, isVar, mentioned], affineAs_none _⟩
    | .call _ _ _ => exact ⟨none, by simp [Expr.affine?, isVar, mentioned], affineAs_none _⟩
    | .integral _ _ => exact ⟨none, by simp [Expr.affine?, isVar, mentioned], affineAs_none _⟩
  · obtain ⟨found, isFound, finite⟩ := finiteValue?_sound textbook expression
    refine ⟨found.map fun number => ⟨constants.arithmetic.zero, number⟩, ?_, ?_⟩
    · unfold Expr.affine?
      rw [if_neg isVar, if_pos (by simpa using mentioned), isFound]
      rfl
    · intro line isLine
      obtain ⟨value, isValue, rfl⟩ := Option.map_eq_some_iff.mp isLine
      obtain ⟨number, rfl, isNumber, free⟩ := finite value isValue
      refine ⟨0, number, by simp [Arithmetic.zero, Constants.arithmetic], ?_⟩
      simpa using HasSlope.of_not_mentions isNumber free

end Affine

end Reading

end ExprCalculus
