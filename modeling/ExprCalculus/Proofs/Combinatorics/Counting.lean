import ExprCalculus.Evaluation.Combinatorics
import Mathlib.Data.Nat.Choose.Basic
import Mathlib.Data.Nat.Factorial.Basic
import Mathlib.Tactic.Ring

/-!
# Exact counts and their lower bounds

The rising products are factorials, falling factorials and, divided by a factorial, binomial
coefficients.  Powers bound them from below.
-/

namespace ExprCalculus

namespace Combinatorics

open scoped Nat

variable {total part : ℕ}

theorem risingProduct_succ (start count : ℕ) :
    risingProduct start (count + 1) = risingProduct start count * (start + count) := by
  unfold risingProduct
  rw [List.range_succ, List.foldl_append]
  rfl

theorem risingProduct_eq (start count : ℕ) :
    risingProduct start count = start.ascFactorial count := by
  induction count with
  | zero => rfl
  | succ count ih => rw [risingProduct_succ, ih, Nat.ascFactorial_succ, Nat.mul_comm]

theorem risingProduct_one (number : ℕ) : risingProduct 1 number = number ! := by
  rw [risingProduct_eq, Nat.one_ascFactorial]

theorem risingProduct_eq_descFactorial (enough : part ≤ total) :
    risingProduct (total - part + 1) part = total.descFactorial part := by
  rw [risingProduct_eq, ← Nat.add_descFactorial_eq_ascFactorial, Nat.sub_add_cancel enough]

/-- Choosing some elements is leaving out the others, so the smaller number is chosen. -/
theorem choose_min (enough : part ≤ total) :
    total.choose (min part (total - part)) = total.choose part := by
  rcases Nat.le_total part (total - part) with smaller | larger
  · rw [Nat.min_eq_left smaller]
  · rw [Nat.min_eq_right larger, Nat.choose_symm enough]

theorem risingProduct_div (enough : part ≤ total) :
    risingProduct (total - min part (total - part) + 1) (min part (total - part)) /
      risingProduct 1 (min part (total - part)) = total.choose part := by
  rw [risingProduct_one, risingProduct_eq_descFactorial (by omega),
    ← Nat.choose_eq_descFactorial_div_factorial, choose_min enough]

/-- The factors of a falling factorial fall more slowly than those of the factorial. -/
theorem pow_mul_descFactorial_le (enough : part ≤ total) (steps : ℕ) :
    total ^ steps * part.descFactorial steps ≤ part ^ steps * total.descFactorial steps := by
  induction steps with
  | zero => rfl
  | succ steps ih =>
      have factor : total * (part - steps) ≤ part * (total - steps) := by
        rw [Nat.mul_sub, Nat.mul_sub, Nat.mul_comm part total]
        exact Nat.sub_le_sub_left (Nat.mul_le_mul_right _ enough) _
      calc total ^ (steps + 1) * part.descFactorial (steps + 1)
          = total * (part - steps) * (total ^ steps * part.descFactorial steps) := by
            rw [Nat.descFactorial_succ]
            ring
        _ ≤ part * (total - steps) * (part ^ steps * total.descFactorial steps) :=
            Nat.mul_le_mul factor ih
        _ = part ^ (steps + 1) * total.descFactorial (steps + 1) := by
            rw [Nat.descFactorial_succ]
            ring

/-- A binomial coefficient is at least a power of the ratio of its arguments. -/
theorem pow_le_pow_mul_choose (enough : part ≤ total) :
    total ^ part ≤ part ^ part * total.choose part := by
  have bound := pow_mul_descFactorial_le enough part
  rw [Nat.descFactorial_self, Nat.descFactorial_eq_factorial_mul_choose, Nat.mul_left_comm,
    Nat.mul_comm] at bound
  exact Nat.le_of_mul_le_mul_left bound part.factorial_pos

theorem factorial_le_descFactorial (enough : part ≤ total) :
    part ! ≤ total.descFactorial part := by
  rw [Nat.descFactorial_eq_factorial_mul_choose]
  exact Nat.le_mul_of_pos_right _ (Nat.choose_pos enough)

end Combinatorics

end ExprCalculus
