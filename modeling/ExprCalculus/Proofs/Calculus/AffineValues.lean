import ExprCalculus.Proofs.Calculus.Reading
import ExprCalculus.Proofs.Calculus.Rules
import ExprCalculus.Proofs.Evaluation.Extension
import ExprCalculus.Proofs.Evaluation.Substitution
import ExprCalculus.Proofs.Simplification.Exact

/-!
# Values of affine expressions

The two numbers that `Expr.affine?` finds are the slope and the intercept of the expression
as a function of its variable: over exact arithmetic the expression has a value wherever the
variable is bound to a number, and the value lies on the line.
-/

namespace ExprCalculus

section Exactness

variable {C : Type} [Field C]

/-- Arithmetic on the elements of a field and one undefined result.  Nothing is assumed of the
other operators and of the named functions. -/
structure Arithmetic.IsExact (arithmetic : Arithmetic (Option C)) : Prop where
  ofInt (number : ℤ) : arithmetic.ofInt number = some (number : C)
  neg (element : C) : arithmetic.neg (some element) = some (-element)
  negate (element : C) : arithmetic.unary .negate (some element) = .ok (some (-element))
  add (left right : C) : arithmetic.binary .add (some left) (some right) = some (left + right)
  subtract (left right : C) :
    arithmetic.binary .subtract (some left) (some right) = some (left - right)
  multiply (left right : C) :
    arithmetic.binary .multiply (some left) (some right) = some (left * right)
  divide (left : C) {right : C} :
    right ≠ 0 → arithmetic.binary .divide (some left) (some right) = some (left / right)
  isFinite (result : Option C) : arithmetic.isFinite result = result.isSome
  isZero (element : C) : arithmetic.isZero (some element) = true ↔ element = 0

theorem Exact.Interpretation.isExact (interpretation : Exact.Interpretation) :
    interpretation.arithmetic.IsExact where
  ofInt _ := rfl
  neg _ := rfl
  negate _ := rfl
  add _ _ := rfl
  subtract _ _ := rfl
  multiply _ _ := rfl
  divide _ _ nonzero := if_neg nonzero
  isFinite _ := rfl
  isZero _ := by simp [Exact.Interpretation.arithmetic]

theorem Constants.isExact [LinearOrder C] (constants : Constants C) :
    constants.arithmetic.IsExact where
  ofInt _ := rfl
  neg _ := rfl
  negate _ := rfl
  add _ _ := rfl
  subtract _ _ := rfl
  multiply _ _ := rfl
  divide _ _ nonzero := if_neg nonzero
  isFinite _ := rfl
  isZero _ := by simp [Constants.arithmetic]

end Exactness

namespace Expr

variable {C : Type} [Field C] {arithmetic : Arithmetic (Option C)} {name : String}

/-- An expression in one variable whose value at every number lies on a line. -/
structure LiesOn (arithmetic : Arithmetic (Option C)) (name : String)
    (expression : Expr (Option C)) (slope intercept : C) : Prop where
  alone : ∀ other ∈ expression.occurrences, other = name
  markerless : expression.hasMarker = false
  value {functions : FunctionEnvironment (Option C)} {bindings : String → Option (Option C)}
    {number : C} : bindings name = some (some number) →
    expression.evaluate arithmetic functions bindings = .ok (some (slope * number + intercept))

namespace LiesOn

variable {left right : Expr (Option C)}
  {slope intercept otherSlope otherIntercept scale divisor : C}

theorem var : LiesOn arithmetic name (.var name) 1 0 where
  alone _ member := List.mem_singleton.mp member
  markerless := rfl
  value isNumber := by rw [evaluate, isNumber, one_mul, add_zero]

/-- A value without bindings is a horizontal line. -/
theorem constant (isConstant : left.isConstant = true)
    (evaluated : left.closedValue arithmetic = .ok (some intercept)) :
    LiesOn arithmetic name left 0 intercept where
  alone other member := by
    rw [List.isEmpty_iff.mp isConstant] at member
    cases member
  markerless := markerless_of_evaluate evaluated
  value _ := by
    rw [zero_mul, zero_add]
    exact evaluate_of_extends (FunctionEnvironment.nil_extendedBy _) nofun evaluated

theorem neg (exact : arithmetic.IsExact) (lies : LiesOn arithmetic name left slope intercept) :
    LiesOn arithmetic name (.unary .negate left) (-slope) (-intercept) where
  alone := lies.alone
  markerless := lies.markerless
  value isNumber := by
    rw [evaluate, lies.value isNumber, except_ok_bind, exact.negate]
    congr 2
    ring

/-- Two lines under an operator have a value wherever the operator has one on the line. -/
theorem binary {operator : BinaryOperator} {newSlope newIntercept : C}
    (first : LiesOn arithmetic name left slope intercept)
    (second : LiesOn arithmetic name right otherSlope otherIntercept)
    (combined : ∀ number : C, arithmetic.binary operator (some (slope * number + intercept))
      (some (otherSlope * number + otherIntercept)) = some (newSlope * number + newIntercept)) :
    LiesOn arithmetic name (.binary operator left right) newSlope newIntercept where
  alone other member := by
    rcases List.mem_append.mp member with inLeft | inRight
    · exact first.alone other inLeft
    · exact second.alone other inRight
  markerless := by rw [hasMarker, first.markerless, second.markerless, Bool.or_false]
  value isNumber := by
    rw [evaluate, first.value isNumber, second.value isNumber, except_ok_bind, except_ok_bind,
      combined, except_pure]

theorem add (exact : arithmetic.IsExact) (first : LiesOn arithmetic name left slope intercept)
    (second : LiesOn arithmetic name right otherSlope otherIntercept) :
    LiesOn arithmetic name (.binary .add left right) (slope + otherSlope)
      (intercept + otherIntercept) := by
  refine first.binary second fun number => ?_
  rw [exact.add]
  congr 1
  ring

theorem subtract (exact : arithmetic.IsExact)
    (first : LiesOn arithmetic name left slope intercept)
    (second : LiesOn arithmetic name right otherSlope otherIntercept) :
    LiesOn arithmetic name (.binary .subtract left right) (slope - otherSlope)
      (intercept - otherIntercept) := by
  refine first.binary second fun number => ?_
  rw [exact.subtract]
  congr 1
  ring

theorem multiplyLeft (exact : arithmetic.IsExact) (isScale : LiesOn arithmetic name left 0 scale)
    (lies : LiesOn arithmetic name right slope intercept) :
    LiesOn arithmetic name (.binary .multiply left right) (scale * slope)
      (scale * intercept) := by
  refine isScale.binary lies fun number => ?_
  rw [exact.multiply]
  congr 1
  ring

theorem multiplyRight (exact : arithmetic.IsExact)
    (lies : LiesOn arithmetic name left slope intercept)
    (isScale : LiesOn arithmetic name right 0 scale) :
    LiesOn arithmetic name (.binary .multiply left right) (scale * slope)
      (scale * intercept) := by
  refine lies.binary isScale fun number => ?_
  rw [exact.multiply]
  congr 1
  ring

theorem divide (exact : arithmetic.IsExact) (lies : LiesOn arithmetic name left slope intercept)
    (isDivisor : LiesOn arithmetic name right 0 divisor) (nonzero : divisor ≠ 0) :
    LiesOn arithmetic name (.binary .divide left right) (slope / divisor)
      (intercept / divisor) := by
  refine lies.binary isDivisor fun number => ?_
  rw [zero_mul, zero_add, exact.divide _ nonzero]
  congr 1
  ring

end LiesOn

/-- A finite value that the search for constants finds is a horizontal line. -/
theorem liesOn_of_finiteValue? (exact : arithmetic.IsExact) {expression : Expr (Option C)}
    {result : Option C} (found : expression.finiteValue? arithmetic = .ok (some result)) :
    ∃ number : C, result = some number ∧ LiesOn arithmetic name expression 0 number := by
  rw [finiteValue?] at found
  split at found
  next isConstant =>
    split at found
    next value evaluated =>
      obtain ⟨isFinite, isResult⟩ := Option.ite_none_right_eq_some.mp (Except.ok.inj found)
      obtain rfl := Option.some.inj isResult
      rw [exact.isFinite] at isFinite
      obtain ⟨number, rfl⟩ := Option.isSome_iff_exists.mp isFinite
      exact ⟨number, rfl, .constant isConstant evaluated⟩
    next =>
      split at found <;> cases found
  next => cases found

/-- The two numbers of a line are known, and the expression lies on it. -/
def HasLine (arithmetic : Arithmetic (Option C)) (name : String) (expression : Expr (Option C))
    (line : Affine (Option C)) : Prop :=
  ∃ slope intercept : C, line = ⟨some slope, some intercept⟩ ∧
    LiesOn arithmetic name expression slope intercept

namespace HasLine

variable {left right : Expr (Option C)} {first second : Affine (Option C)} {scale : C}

theorem neg (exact : arithmetic.IsExact) (has : HasLine arithmetic name left first) :
    HasLine arithmetic name (.unary .negate left) (first.map arithmetic.neg) := by
  obtain ⟨slope, intercept, rfl, lies⟩ := has
  exact ⟨-slope, -intercept, by rw [Affine.map, exact.neg, exact.neg], lies.neg exact⟩

theorem add (exact : arithmetic.IsExact) (hasFirst : HasLine arithmetic name left first)
    (hasSecond : HasLine arithmetic name right second) :
    HasLine arithmetic name (.binary .add left right) (first.plus arithmetic 1 second) := by
  obtain ⟨slope, intercept, rfl, lies⟩ := hasFirst
  obtain ⟨otherSlope, otherIntercept, rfl, otherLies⟩ := hasSecond
  refine ⟨_, _, ?_, lies.add exact otherLies⟩
  simp [Affine.plus, Affine.map, Arithmetic.mul, Arithmetic.add, exact.ofInt, exact.multiply,
    exact.add]

theorem subtract (exact : arithmetic.IsExact) (hasFirst : HasLine arithmetic name left first)
    (hasSecond : HasLine arithmetic name right second) :
    HasLine arithmetic name (.binary .subtract left right)
      (first.plus arithmetic (-1) second) := by
  obtain ⟨slope, intercept, rfl, lies⟩ := hasFirst
  obtain ⟨otherSlope, otherIntercept, rfl, otherLies⟩ := hasSecond
  refine ⟨_, _, ?_, lies.subtract exact otherLies⟩
  simp [Affine.plus, Affine.map, Arithmetic.mul, Arithmetic.add, exact.ofInt, exact.multiply,
    exact.add, sub_eq_add_neg]

theorem multiplyLeft (exact : arithmetic.IsExact) (isScale : LiesOn arithmetic name left 0 scale)
    (has : HasLine arithmetic name right second) :
    HasLine arithmetic name (.binary .multiply left right)
      (second.map (arithmetic.mul (some scale))) := by
  obtain ⟨slope, intercept, rfl, lies⟩ := has
  exact ⟨_, _, by simp [Affine.map, Arithmetic.mul, exact.multiply],
    isScale.multiplyLeft exact lies⟩

theorem multiplyRight (exact : arithmetic.IsExact) (has : HasLine arithmetic name left first)
    (isScale : LiesOn arithmetic name right 0 scale) :
    HasLine arithmetic name (.binary .multiply left right)
      (first.map (arithmetic.mul (some scale))) := by
  obtain ⟨slope, intercept, rfl, lies⟩ := has
  exact ⟨_, _, by simp [Affine.map, Arithmetic.mul, exact.multiply],
    lies.multiplyRight exact isScale⟩

theorem divide (exact : arithmetic.IsExact) (has : HasLine arithmetic name left first)
    (isDivisor : LiesOn arithmetic name right 0 scale)
    (nonzero : arithmetic.isZero (some scale) = false) :
    HasLine arithmetic name (.binary .divide left right)
      (first.map fun number => arithmetic.div number (some scale)) := by
  obtain ⟨slope, intercept, rfl, lies⟩ := has
  have invertible : scale ≠ 0 := by
    rintro zero
    rw [(exact.isZero scale).mpr zero] at nonzero
    cases nonzero
  exact ⟨_, _, by simp [Affine.map, Arithmetic.div, exact.divide _ invertible],
    lies.divide exact isDivisor invertible⟩

end HasLine

section Search

variable {ε β γ δ : Type} {search : Except ε (Option β)} {other : Except ε (Option γ)} {result : δ}

/-- A search that finds something after its result is changed found something before. -/
theorem exists_of_changed {change : β → δ}
    (found : (search >>= fun first? => pure (first?.map change)) = .ok (some result)) :
    ∃ first, search = .ok (some first) ∧ change first = result := by
  obtain ⟨first?, searched, changed⟩ := except_bind_eq_ok.mp found
  obtain ⟨first, rfl, isResult⟩ := Option.map_eq_some_iff.mp (Except.ok.inj changed)
  exact ⟨first, searched, isResult⟩

/-- Two searches whose results are combined both found something. -/
theorem exists_of_combined {combine : β → γ → δ}
    (found : (search >>= fun first? => other >>= fun second? =>
      pure (first?.bind fun first => second?.map (combine first))) = .ok (some result)) :
    ∃ first second, search = .ok (some first) ∧ other = .ok (some second) ∧
      combine first second = result := by
  obtain ⟨first?, searched, rest⟩ := except_bind_eq_ok.mp found
  obtain ⟨second?, alsoSearched, combined⟩ := except_bind_eq_ok.mp rest
  obtain ⟨first, rfl, changed⟩ := Option.bind_eq_some_iff.mp (Except.ok.inj combined)
  obtain ⟨second, rfl, isResult⟩ := Option.map_eq_some_iff.mp changed
  exact ⟨first, second, searched, alsoSearched, isResult⟩

end Search

/-- The line that the search for an affine expression finds is the line of the expression. -/
theorem hasLine_of_affine? (exact : arithmetic.IsExact) {expression : Expr (Option C)}
    {line : Affine (Option C)}
    (found : expression.affine? arithmetic name = .ok (some line)) :
    HasLine arithmetic name expression line := by
  unfold affine? at found
  split at found
  next isVar =>
    obtain rfl := eq_var_of_isVar isVar
    cases found
    exact ⟨1, 0, by simp [Arithmetic.one, Arithmetic.zero, exact.ofInt], .var⟩
  split at found
  next =>
    obtain ⟨value, isValue, rfl⟩ := exists_of_changed found
    obtain ⟨number, rfl, lies⟩ := liesOn_of_finiteValue? exact isValue
    exact ⟨0, number, by simp [Arithmetic.zero, exact.ofInt], lies⟩
  -- The remaining cases are the shapes that mention the variable.
  split at found
  next operand =>
    obtain ⟨inner, isInner, rfl⟩ := exists_of_changed found
    exact (hasLine_of_affine? exact isInner).neg exact
  next left right =>
    obtain ⟨first, second, isFirst, isSecond, rfl⟩ := exists_of_combined found
    exact (hasLine_of_affine? exact isFirst).add exact (hasLine_of_affine? exact isSecond)
  next left right =>
    obtain ⟨first, second, isFirst, isSecond, rfl⟩ := exists_of_combined found
    exact (hasLine_of_affine? exact isFirst).subtract exact (hasLine_of_affine? exact isSecond)
  next left right =>
    obtain ⟨leftValue?, isLeft, rest⟩ := except_bind_eq_ok.mp found
    split at rest
    next scale =>
      obtain ⟨number, rfl, isScale⟩ := liesOn_of_finiteValue? exact isLeft
      obtain ⟨inner, isInner, rfl⟩ := exists_of_changed rest
      exact (hasLine_of_affine? exact isInner).multiplyLeft exact isScale
    next =>
      obtain ⟨rightValue?, isRight, more⟩ := except_bind_eq_ok.mp rest
      split at more
      next scale =>
        obtain ⟨number, rfl, isScale⟩ := liesOn_of_finiteValue? exact isRight
        obtain ⟨inner, isInner, rfl⟩ := exists_of_changed more
        exact (hasLine_of_affine? exact isInner).multiplyRight exact isScale
      next => cases more
  next left right =>
    obtain ⟨rightValue?, isRight, rest⟩ := except_bind_eq_ok.mp found
    split at rest
    next divisor =>
      obtain ⟨number, rfl, isDivisor⟩ := liesOn_of_finiteValue? exact isRight
      split at rest
      next => cases rest
      next nonzero =>
        obtain ⟨inner, isInner, rfl⟩ := exists_of_changed rest
        exact (hasLine_of_affine? exact isInner).divide exact isDivisor
          (Bool.eq_false_iff.mpr nonzero)
    next => cases rest
  next => cases found

/-- The numbers that the search for an affine expression finds are those of its line: the
expression has no other variable and no marker of an unknown integral, and at every number it
has the value on the line, whatever else is bound or supplied. -/
theorem affine_search_finds_line (exact : arithmetic.IsExact) {expression : Expr (Option C)}
    {line : Affine (Option C)}
    (found : expression.affine? arithmetic name = .ok (some line)) :
    (∀ other ∈ expression.variableNames, other = name) ∧ expression.hasMarker = false ∧
      ∃ slope intercept : C, line = ⟨some slope, some intercept⟩ ∧
        ∀ (functions : FunctionEnvironment (Option C)) (bindings : String → Option (Option C))
          (number : C), bindings name = some (some number) →
            expression.evaluate arithmetic functions bindings =
              .ok (some (slope * number + intercept)) := by
  obtain ⟨slope, intercept, isLine, lies⟩ := hasLine_of_affine? exact found
  exact ⟨fun other member => lies.alone other (mem_variableNames.mp member), lies.markerless,
    slope, intercept, isLine, fun functions bindings number isNumber => lies.value isNumber⟩

section Instance

/-- Exact arithmetic that knows the larger of two numbers. -/
def withMaximum : Exact.Interpretation where
  unary _ _ := .ok none
  binary _ _ _ := none
  named? function :=
    if function = "max" then some (.two fun first second => .ok (some (max first second)))
    else none
  sqrt _ := none
  euler := none

/-- The expression `(1 - max(2, 6) * -x) / 4`. -/
def scaledLine : Expr (Option ℚ) :=
  (.const (some 1) - .call "max" (.const (some 2)) [.const (some 6)] *
    .unary .negate (.var "x")) / .const (some 4)

theorem affine_search_finds_scaledLine :
    withMaximum.arithmetic.IsExact ∧
      scaledLine.affine? withMaximum.arithmetic "x" =
        .ok (some ⟨some (3 / 2), some (1 / 4)⟩) ∧
      (∀ other ∈ scaledLine.variableNames, other = "x") ∧ scaledLine.hasMarker = false ∧
      ∃ slope intercept : ℚ,
        (⟨some (3 / 2), some (1 / 4)⟩ : Affine (Option ℚ)) = ⟨some slope, some intercept⟩ ∧
        ∀ (functions : FunctionEnvironment (Option ℚ)) (bindings : String → Option (Option ℚ))
          (number : ℚ), bindings "x" = some (some number) →
            scaledLine.evaluate withMaximum.arithmetic functions bindings =
              .ok (some (slope * number + intercept)) := by
  have found : scaledLine.affine? withMaximum.arithmetic "x" =
      .ok (some ⟨some (3 / 2), some (1 / 4)⟩) := by
    with_unfolding_all rfl
  exact ⟨withMaximum.isExact, found, affine_search_finds_line withMaximum.isExact found⟩

end Instance

end Expr

end ExprCalculus
