import ExprCalculus.Proofs.Simplification.Exact
import Mathlib.Algebra.DualNumber
import Mathlib.Tactic.FieldSimp
import Mathlib.Tactic.Ring

/-!
# Evaluation over dual numbers

A dual number `a + b * ε` with `ε ^ 2 = 0` carries a value and a slope.  Expressions
are evaluated over dual numbers by the same evaluator as over other numbers: the
variable of differentiation is raised by `ε`, the other variables and the constants
have slope zero, and the slope of the result is the derivative.
-/

namespace ExprCalculus

namespace Exact

open DualNumber TrivSqZeroExt

def wholePower (base : ℚ[ε]) : ℤ → ℚ[ε]
  | .ofNat exponent => base ^ exponent
  | .negSucc exponent => base⁻¹ ^ (exponent + 1)

@[simp]
theorem fst_wholePower (base : ℚ[ε]) (exponent : ℤ) :
    (wholePower base exponent).fst = base.fst ^ exponent := by
  cases exponent with
  | ofNat exponent => simp [wholePower]
  | negSucc exponent => simp [wholePower, zpow_negSucc]

/-- The slope of a whole power, where neither the power nor its slope divides by
zero. -/
theorem snd_wholePower (base : ℚ[ε]) {exponent : ℤ} (nonzero : exponent ≠ 0)
    (defined : ¬ (base.fst = 0 ∧ exponent < 0)) :
    (wholePower base exponent).snd = exponent * base.fst ^ (exponent - 1) * base.snd := by
  cases exponent with
  | ofNat exponent =>
      cases exponent with
      | zero => simp at nonzero
      | succ exponent => simp [wholePower, snd_pow, mul_assoc]
  | negSucc exponent =>
      have invertible : base.fst ≠ 0 := fun zero => defined ⟨zero, Int.negSucc_lt_zero exponent⟩
      have shifted : Int.negSucc exponent - 1 = -((exponent + 2 : ℕ) : ℤ) := by
        simp [Int.negSucc_eq]
        ring
      rw [shifted, zpow_neg, zpow_natCast]
      simp only [wholePower, snd_pow, fst_inv, snd_inv, Nat.pred_succ, nsmul_eq_mul, smul_eq_mul,
        MulOpposite.smul_eq_mul_unop, MulOpposite.unop_op, Int.cast_negSucc, inv_pow]
      field_simp
      ring

/-- The value of an operator between two dual numbers.  A dual number whose value is
zero has no inverse, and the exponent of a power is a whole constant. -/
def dualBinary : BinaryOperator → Option ℚ[ε] → Option ℚ[ε] → Option ℚ[ε]
  | operator, some left, some right =>
      match operator with
      | .add => some (left + right)
      | .subtract => some (left - right)
      | .multiply => some (left * right)
      | .divide => if right.fst = 0 then none else some (left * right⁻¹)
      | .power =>
          if right.snd = 0 ∧ right.fst = right.fst.num then
            if left.fst = 0 ∧ right.fst.num < 0 then none
            else some (wholePower left right.fst.num)
          else
            none
      | .modulo => none
      | .logBase => none
  | _, _, _ => none

/-- The arithmetic of dual numbers, with an undefined result.  Only the arithmetic
operations are defined. -/
def dualArithmetic : Arithmetic (Option ℚ[ε]) where
  ofInt number := some number
  euler := none
  neg := Option.map (- ·)
  sqrt _ := none
  binary := dualBinary
  unary operator operand :=
    .ok (if operator = .negate then operand.map (- ·) else none)
  named? _ := none
  near _ _ := false
  apart _ _ := false
  same _ _ := false
  isFinite := Option.isSome
  isZero _ := false
  isNegative _ := false
  isPositive _ := false

/-- The dual number that a variable stands for when an expression is differentiated
with respect to the variable of the given name. -/
def dualBindings (name : String) (bindings : String → Option (Option ℚ)) (other : String) :
    Option (Option ℚ[ε]) :=
  (bindings other).map (Option.map fun value => if other = name then inl value + ε else inl value)

/-- An expression is defined over dual numbers and has the given value and slope. -/
def DualDenotes (valuation : Valuation) (name : String) (expression : Expr (Option ℚ))
    (dual : ℚ[ε]) : Prop :=
  (expression.map (Option.map inl)).evaluate dualArithmetic []
    (dualBindings name valuation.bindings) = .ok (some dual)

section Operations

variable {valuation : Valuation} {name : String} {left right : Expr (Option ℚ)}
  {leftDual rightDual : ℚ[ε]}

theorem dualDenotes_const (value : ℚ) :
    DualDenotes valuation name (.const (some value)) (inl value) := by
  rw [DualDenotes, Expr.map, Expr.evaluate]
  rfl

theorem dualDenotes_var {other : String} {value : ℚ}
    (bound : valuation.bindings other = some (some value)) :
    DualDenotes valuation name (.var other) (if other = name then inl value + ε else inl value) := by
  rw [DualDenotes, Expr.map, Expr.evaluate, dualBindings, bound]
  rfl

theorem DualDenotes.neg (denotes : DualDenotes valuation name left leftDual) :
    DualDenotes valuation name (.unary .negate left) (-leftDual) := by
  rw [DualDenotes] at denotes ⊢
  rw [Expr.map, Expr.evaluate, denotes]
  rfl

theorem DualDenotes.binary {operator : BinaryOperator} {dual : ℚ[ε]}
    (leftDenotes : DualDenotes valuation name left leftDual)
    (rightDenotes : DualDenotes valuation name right rightDual)
    (combined : dualBinary operator (some leftDual) (some rightDual) = some dual) :
    DualDenotes valuation name (.binary operator left right) dual := by
  rw [DualDenotes] at leftDenotes rightDenotes ⊢
  rw [Expr.map, Expr.evaluate, leftDenotes, rightDenotes]
  exact congrArg Except.ok combined

end Operations

end Exact

end ExprCalculus
