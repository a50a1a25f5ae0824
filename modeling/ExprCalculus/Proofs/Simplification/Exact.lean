import ExprCalculus.Proofs.Outcomes
import ExprCalculus.Simplification.Basic
import Mathlib.Algebra.Order.Field.Rat

/-!
# Exact arithmetic

The constants of exact arithmetic are the rational numbers and one undefined
result.  Sums, products, quotients and whole powers are exact; a quotient by zero
and a negative power of zero are undefined.  All other operators and functions are
left open: they are arbitrary partial functions of rational numbers.  Two numbers
are near each other if they are equal.
-/

namespace ExprCalculus

namespace Exact

/-- A partial function of one or two rational numbers. -/
inductive PartialFunction where
  | one (apply : ℚ → Except (EvaluationFault (Option ℚ)) (Option ℚ))
  | two (apply : ℚ → ℚ → Except (EvaluationFault (Option ℚ)) (Option ℚ))

/-- The operators and functions that exact arithmetic leaves open. -/
structure Interpretation where
  unary : UnaryOperator → ℚ → Except (EvaluationFault (Option ℚ)) (Option ℚ)
  binary : BinaryOperator → ℚ → ℚ → Option ℚ
  named? : String → Option PartialFunction
  sqrt : Option ℚ → Option ℚ
  euler : Option ℚ

/-- A partial function on results; it is undefined where an argument is. -/
def PartialFunction.lift : PartialFunction → NamedFunction (Option ℚ)
  | one apply => .one fun
      | some argument => apply argument
      | none => .ok none
  | two apply => .two fun
      | some first, some second => apply first second
      | _, _ => .ok none

/-- A power of a rational number, exact for a whole exponent. -/
def power (otherwise : ℚ → ℚ → Option ℚ) (base exponent : ℚ) : Option ℚ :=
  if exponent = exponent.num then
    if base = 0 ∧ exponent.num < 0 then none else some (base ^ exponent.num)
  else
    otherwise base exponent

namespace Interpretation

variable (interpretation : Interpretation)

def binaryValue (operator : BinaryOperator) : Option ℚ → Option ℚ → Option ℚ
  | some left, some right =>
      match operator with
      | .add => some (left + right)
      | .subtract => some (left - right)
      | .multiply => some (left * right)
      | .divide => if right = 0 then none else some (left / right)
      | .power => power (interpretation.binary .power) left right
      | .modulo => interpretation.binary .modulo left right
      | .logBase => interpretation.binary .logBase left right
  | _, _ => none

def unaryValue (operator : UnaryOperator) :
    Option ℚ → Except (EvaluationFault (Option ℚ)) (Option ℚ)
  | some operand =>
      if operator = .negate then .ok (some (-operand)) else interpretation.unary operator operand
  | none => .ok none

def arithmetic : Arithmetic (Option ℚ) where
  ofInt number := some number
  euler := interpretation.euler
  neg := Option.map (- ·)
  sqrt := interpretation.sqrt
  binary := interpretation.binaryValue
  unary := interpretation.unaryValue
  named? name := (interpretation.named? name).map PartialFunction.lift
  near first second := first.isSome && first = second
  apart first second := first.isSome && second.isSome && first ≠ second
  same first second := first = second
  isFinite := Option.isSome
  isZero value := value = some 0
  isNegative value := value.any (· < 0)
  isPositive value := value.any (0 < ·)

end Interpretation

/-- What the value of an expression depends on: an interpretation, further functions,
which are undefined where an argument is, and bindings of the variables. -/
structure Valuation where
  interpretation : Interpretation
  functions : FunctionEnvironment (Option ℚ)
  strict : ∀ entry ∈ functions, ∀ arguments value,
    entry.2 arguments = .ok (some value) → none ∉ arguments
  bindings : String → Option (Option ℚ)

/-- Without further functions nothing has to be strict. -/
theorem strict_nil : ∀ entry ∈ ([] : FunctionEnvironment (Option ℚ)), ∀ arguments value,
    entry.2 arguments = .ok (some value) → none ∉ arguments := nofun

/-- An expression is defined under a valuation and has the given value. -/
def Denotes (valuation : Valuation) (expression : Expr (Option ℚ)) (value : ℚ) : Prop :=
  expression.evaluate valuation.interpretation.arithmetic valuation.functions
    valuation.bindings = .ok (some value)

section Denotations

variable {valuation : Valuation} {value : ℚ}

theorem denotes_const {constant : Option ℚ} :
    Denotes valuation (.const constant) value ↔ constant = some value := by
  unfold Denotes
  rw [Expr.evaluate, Except.ok.injEq]

theorem binaryValue_eq_some {interpretation : Interpretation} {operator : BinaryOperator}
    {left right : Option ℚ} (defined : interpretation.binaryValue operator left right = some value) :
    ∃ leftValue rightValue, left = some leftValue ∧ right = some rightValue := by
  match left, right with
  | some leftValue, some rightValue => exact ⟨leftValue, rightValue, rfl, rfl⟩
  | some _, none => cases defined
  | none, _ => cases defined

theorem denotes_binary {operator : BinaryOperator} {left right : Expr (Option ℚ)} :
    Denotes valuation (.binary operator left right) value ↔
      ∃ leftValue rightValue, Denotes valuation left leftValue ∧
        Denotes valuation right rightValue ∧
        valuation.interpretation.binaryValue operator (some leftValue) (some rightValue) =
          some value := by
  unfold Denotes
  rw [Expr.evaluate]
  constructor
  · intro defined
    obtain ⟨leftResult, leftOutcome, further⟩ := except_bind_eq_ok.mp defined
    obtain ⟨rightResult, rightOutcome, made⟩ := except_bind_eq_ok.mp further
    have combined : valuation.interpretation.binaryValue operator leftResult rightResult =
        some value := Except.ok.inj made
    obtain ⟨leftValue, rightValue, rfl, rfl⟩ := binaryValue_eq_some combined
    exact ⟨leftValue, rightValue, leftOutcome, rightOutcome, combined⟩
  · rintro ⟨leftValue, rightValue, leftDenotes, rightDenotes, combined⟩
    rw [leftDenotes, rightDenotes]
    exact congrArg Except.ok combined

theorem denotes_unary {operator : UnaryOperator} {operand : Expr (Option ℚ)} :
    Denotes valuation (.unary operator operand) value ↔
      ∃ operandValue, Denotes valuation operand operandValue ∧
        valuation.interpretation.unaryValue operator (some operandValue) = .ok (some value) := by
  unfold Denotes
  rw [Expr.evaluate]
  constructor
  · intro defined
    obtain ⟨result, outcome, applied⟩ := except_bind_eq_ok.mp defined
    cases result with
    | none => cases applied
    | some operandValue => exact ⟨operandValue, outcome, applied⟩
  · rintro ⟨operandValue, operandDenotes, applied⟩
    rw [operandDenotes]
    exact applied

section Calls

def DenotesAll (valuation : Valuation) (expressions : List (Expr (Option ℚ)))
    (values : List ℚ) : Prop :=
  Expr.evaluateAll valuation.interpretation.arithmetic valuation.functions valuation.bindings
    expressions = .ok (values.map some)

theorem exists_map_some {arguments : List (Option ℚ)} (defined : none ∉ arguments) :
    ∃ values : List ℚ, arguments = values.map some := by
  induction arguments with
  | nil => exact ⟨[], rfl⟩
  | cons argument rest ih =>
      obtain ⟨values, rfl⟩ := ih fun member => defined (List.mem_cons_of_mem _ member)
      cases argument with
      | none => exact absurd List.mem_cons_self defined
      | some value => exact ⟨value :: values, rfl⟩

theorem lift_strict {function : PartialFunction} {name : String} {arguments : List (Option ℚ)}
    (defined : function.lift.apply name arguments = .ok (some value)) : none ∉ arguments := by
  match function, arguments with
  | .one apply, [some argument] => simp
  | .two apply, [some first, some second] => simp
  | .one apply, [none] => cases defined
  | .two apply, [none, _] => cases defined
  | .two apply, [some _, none] => cases defined
  | .one apply, [] | .two apply, [] => simp
  | .two apply, [_] | .one apply, _ :: _ :: _ | .two apply, _ :: _ :: _ :: _ => cases defined

theorem exists_of_lookup? {functions : FunctionEnvironment (Option ℚ)} {name : String}
    {function : List (Option ℚ) → Except (EvaluationFault (Option ℚ)) (Option ℚ)}
    (found : functions.lookup? name = some function) :
    ∃ entry ∈ functions, entry.2 = function := by
  unfold FunctionEnvironment.lookup? at found
  rw [Option.map_eq_some_iff] at found
  obtain ⟨entry, isEntry, rfl⟩ := found
  refine ⟨entry, ?_, rfl⟩
  rcases Option.or_eq_some_iff.mp isEntry with exactly | ⟨-, inAnyCase⟩
  · exact List.mem_of_find?_eq_some exactly
  · exact List.mem_of_find?_eq_some inAnyCase

/-- A call is undefined where an argument is. -/
theorem callByName_strict {name : String} {arguments : List (Option ℚ)}
    (defined : valuation.interpretation.arithmetic.callByName valuation.functions name arguments =
      .ok (some value)) : none ∉ arguments := by
  unfold Arithmetic.callByName at defined
  split at defined
  next function named =>
    obtain ⟨open?, -, rfl⟩ := Option.map_eq_some_iff.mp named
    exact lift_strict defined
  next =>
    split at defined
    next function found =>
      obtain ⟨entry, member, rfl⟩ := exists_of_lookup? found
      exact valuation.strict entry member arguments value defined
    next => cases defined

theorem denotesAll_cons {first : Expr (Option ℚ)} {rest : List (Expr (Option ℚ))}
    {values : List ℚ} :
    DenotesAll valuation (first :: rest) values ↔
      ∃ firstValue restValues, values = firstValue :: restValues ∧
        Denotes valuation first firstValue ∧ DenotesAll valuation rest restValues := by
  unfold Denotes DenotesAll
  rw [Expr.evaluateAll]
  constructor
  · intro defined
    obtain ⟨firstResult, firstOutcome, further⟩ := except_bind_eq_ok.mp defined
    obtain ⟨restResults, restOutcome, made⟩ := except_bind_eq_ok.mp further
    have shape : firstResult :: restResults = values.map some := Except.ok.inj made
    cases values with
    | nil => cases shape
    | cons firstValue restValues =>
        obtain ⟨rfl, rfl⟩ := List.cons_eq_cons.mp shape
        exact ⟨firstValue, restValues, rfl, firstOutcome, restOutcome⟩
  · rintro ⟨firstValue, restValues, rfl, firstDenotes, restDenotes⟩
    rw [firstDenotes, restDenotes]
    rfl

theorem denotes_call {name : String} {first : Expr (Option ℚ)} {others : List (Expr (Option ℚ))} :
    Denotes valuation (.call name first others) value ↔
      ∃ firstValue otherValues, Denotes valuation first firstValue ∧
        DenotesAll valuation others otherValues ∧
        valuation.interpretation.arithmetic.callByName valuation.functions name
          (some firstValue :: otherValues.map some) = .ok (some value) := by
  unfold Denotes DenotesAll
  rw [Expr.evaluate]
  constructor
  · intro defined
    obtain ⟨firstResult, firstOutcome, further⟩ := except_bind_eq_ok.mp defined
    obtain ⟨otherResults, othersOutcome, applied⟩ := except_bind_eq_ok.mp further
    obtain ⟨values, shape⟩ := exists_map_some (callByName_strict applied)
    cases values with
    | nil => cases shape
    | cons firstValue otherValues =>
        obtain ⟨rfl, rfl⟩ := List.cons_eq_cons.mp shape
        exact ⟨firstValue, otherValues, firstOutcome, othersOutcome, applied⟩
  · rintro ⟨firstValue, otherValues, firstDenotes, othersDenote, applied⟩
    rw [firstDenotes, othersDenote]
    exact applied

end Calls

section Operations

variable {left right : Expr (Option ℚ)} {leftValue rightValue : ℚ}

theorem Denotes.add (leftDenotes : Denotes valuation left leftValue)
    (rightDenotes : Denotes valuation right rightValue) :
    Denotes valuation (left + right) (leftValue + rightValue) :=
  denotes_binary.mpr ⟨leftValue, rightValue, leftDenotes, rightDenotes, rfl⟩

theorem Denotes.sub (leftDenotes : Denotes valuation left leftValue)
    (rightDenotes : Denotes valuation right rightValue) :
    Denotes valuation (left - right) (leftValue - rightValue) :=
  denotes_binary.mpr ⟨leftValue, rightValue, leftDenotes, rightDenotes, rfl⟩

theorem Denotes.mul (leftDenotes : Denotes valuation left leftValue)
    (rightDenotes : Denotes valuation right rightValue) :
    Denotes valuation (left * right) (leftValue * rightValue) :=
  denotes_binary.mpr ⟨leftValue, rightValue, leftDenotes, rightDenotes, rfl⟩

theorem Denotes.neg (leftDenotes : Denotes valuation left leftValue) :
    Denotes valuation (-left) (-leftValue) :=
  denotes_unary.mpr ⟨leftValue, leftDenotes, rfl⟩

theorem denotes_neg {operand : Expr (Option ℚ)} :
    Denotes valuation (.unary .negate operand) value ↔
      ∃ operandValue, Denotes valuation operand operandValue ∧ value = -operandValue := by
  rw [denotes_unary]
  constructor
  · rintro ⟨operandValue, operandDenotes, applied⟩
    exact ⟨operandValue, operandDenotes, (Option.some.inj (Except.ok.inj applied)).symm⟩
  · rintro ⟨operandValue, operandDenotes, rfl⟩
    exact ⟨operandValue, operandDenotes, rfl⟩

theorem denotes_mul : Denotes valuation (.binary .multiply left right) value ↔
    ∃ leftValue rightValue, Denotes valuation left leftValue ∧
      Denotes valuation right rightValue ∧ value = leftValue * rightValue := by
  rw [denotes_binary]
  constructor
  · rintro ⟨leftValue, rightValue, leftDenotes, rightDenotes, combined⟩
    exact ⟨leftValue, rightValue, leftDenotes, rightDenotes, (Option.some.inj combined).symm⟩
  · rintro ⟨leftValue, rightValue, leftDenotes, rightDenotes, rfl⟩
    exact ⟨leftValue, rightValue, leftDenotes, rightDenotes, rfl⟩

/-- An expression has at most one value. -/
theorem Denotes.unique {expression : Expr (Option ℚ)} {other : ℚ}
    (denotes : Denotes valuation expression value)
    (alsoDenotes : Denotes valuation expression other) : value = other :=
  Option.some.inj (Except.ok.inj (denotes.symm.trans alsoDenotes))

end Operations

end Denotations

end Exact

end ExprCalculus
