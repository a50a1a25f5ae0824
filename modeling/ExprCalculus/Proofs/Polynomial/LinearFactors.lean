import ExprCalculus.Proofs.Polynomial.Factorization
import Mathlib.Algebra.CharZero.Infinite
import Mathlib.RingTheory.Polynomial.SmallDegreeVieta

/-!
# Linear factors

In exact arithmetic the division by `q * x - p` is an identity of polynomials, whose
remainder is the value at `p / q`.  A quadratic polynomial with two simple fractions as
its roots, equal or not, is split into linear factors that multiply to it.
-/

namespace ExprCalculus

namespace Exact

open Polynomial

section Division

noncomputable def ofCoefficients : List ℚ → ℚ[X]
  | [] => 0
  | coefficient :: rest => C coefficient + X * ofCoefficients rest

theorem eval_ofCoefficients (x : ℚ) (numbers : List ℚ) :
    (ofCoefficients numbers).eval x = polynomialValue x numbers := by
  induction numbers with
  | nil => simp [ofCoefficients]
  | cons coefficient rest ih => simp [ofCoefficients, ih]

/-- The quotient by `x - p / q`, divided by `q`, is the quotient by `q * x - p`. -/
theorem deflate_divided (interpretation : Interpretation) (numbers : List ℚ) (root : ℚ) :
    ∃ rest : List ℚ,
      (Factorization.deflate (factoring interpretation) (some root) (numbers.map some)).map
        ((factoring interpretation).div · ((factoring interpretation).ofInt root.den)) =
        rest.map some ∧
      rest.length = numbers.length - 1 ∧
      ofCoefficients numbers = (C (root.den : ℚ) * X - C (root.num : ℚ)) * ofCoefficients rest +
        C ((ofCoefficients numbers).eval root) := by
  obtain ⟨quotient, isQuotient, divides⟩ := deflate_spec interpretation root numbers
  have denominator : (root.den : ℚ) ≠ 0 := Nat.cast_ne_zero.mpr root.den_nz
  have sameLength := congrArg List.length isQuotient
  rw [Factorization.length_deflate, List.length_map, List.length_map] at sameLength
  refine ⟨quotient.map (· / (root.den : ℚ)), ?_, ?_, Polynomial.funext fun x => ?_⟩
  · rw [isQuotient, List.map_map, List.map_map]
    apply List.map_congr_left
    intro coefficient _
    rw [Function.comp_apply, factoring_ofInt, Int.cast_natCast]
    exact factoring_div denominator
  · rw [List.length_map, sameLength]
  · simp only [eval_add, eval_mul, eval_sub, eval_C, eval_X, eval_ofCoefficients,
      polynomialValue_map_div]
    rw [mul_den_sub_num, divides x]
    field_simp
    ring

end Division

section Quadratics

variable {interpretation : Interpretation} {name : String} {a first second : ℚ}

@[simp]
theorem factoring_subtract :
    (factoring interpretation).binary .subtract (some first) (some second) =
      some (first - second) := rfl

theorem root?_mul_self (number : ℚ) : root? (number * number) = some |number| := by
  unfold root?
  rw [Rat.sqrt_eq, abs_mul_abs_self, if_pos rfl]

theorem factoring_root_mul_self (number : ℚ) :
    (factoring interpretation).root (some (number * number)) = .ok (some |number|) := by
  have nonnegative : ¬ (some (number * number)).any (· < 0) := by
    simpa using mul_self_nonneg number
  exact (if_neg nonnegative).trans (congrArg Except.ok (root?_mul_self number))

/-- A fraction with a small denominator is recognised as a quotient. -/
theorem fractionAt_of_root {numerator denominator : ℚ} (root : ℚ) (nonzero : denominator ≠ 0)
    (isRoot : numerator = root * denominator) (small : root.den ≤ 100) :
    (do
      (factoring interpretation).fraction?
        (← (factoring interpretation).quotient (some numerator) (some denominator))) =
      .ok (some root) := by
  rw [factoring_quotient_eq_ok.mpr ⟨nonzero, rfl⟩, except_ok_bind, isRoot,
    mul_div_cancel_right₀ _ nonzero]
  exact congrArg Except.ok (Option.filter_some_pos (decide_eq_true small))

theorem quotient_den_mul_den (interpretation : Interpretation) (a first second : ℚ) :
    ∃ scale, (factoring interpretation).quotient (some a)
      (some ((first.den * second.den : ℕ) : ℤ)) = .ok scale :=
  ⟨_, factoring_quotient_eq_ok.mpr ⟨by
    rw [Int.cast_natCast, Nat.cast_ne_zero]
    exact Nat.mul_ne_zero first.den_nz second.den_nz, rfl⟩⟩

/-- The distance of the roots has no sign, so either of them may be the upper one. -/
theorem roots_of_distance (a : ℚ) (firstSmall : first.den ≤ 100) (secondSmall : second.den ≤ 100) :
    ∃ upper lower : ℚ,
      -(-a * (first + second)) + |a * (first - second)| = upper * ((2 : ℤ) * a) ∧
      -(-a * (first + second)) - |a * (first - second)| = lower * ((2 : ℤ) * a) ∧
      upper.den ≤ 100 ∧ lower.den ≤ 100 := by
  push_cast
  rcases abs_choice (a * (first - second)) with isDistance | isDistance
  · refine ⟨first, second, ?_, ?_, firstSmall, secondSmall⟩ <;> rw [isDistance] <;> ring
  · refine ⟨second, first, ?_, ?_, secondSmall, firstSmall⟩ <;> rw [isDistance] <;> ring

/-- A quadratic polynomial is split by its roots if they are simple fractions. -/
theorem quadratic?_of_roots (leading : a ≠ 0) (firstSmall : first.den ≤ 100)
    (secondSmall : second.den ≤ 100) :
    ∃ factors, Factorization.quadratic? (factoring interpretation) name
      (some (a * first * second)) (some (-a * (first + second))) (some a) = .ok (some factors) := by
  have twice : (2 : ℤ) * a ≠ 0 := mul_ne_zero (by norm_num) leading
  have discriminant : -a * (first + second) * (-a * (first + second)) -
      (4 : ℤ) * a * (a * first * second) = a * (first - second) * (a * (first - second)) := by
    push_cast
    ring
  have notNegative : ¬ (factoring interpretation).clearlyNegative
      (some (a * (first - second) * (a * (first - second)))) = true := by
    change ¬ decide (_ < (0 : ℚ)) = true
    simpa using mul_self_nonneg (a * (first - second))
  unfold Factorization.quadratic?
  simp only [factoring_ofInt, factoring_mul, factoring_neg, factoring_subtract, discriminant,
    factoring_zero, if_neg notNegative]
  by_cases double : first = second
  · subst double
    have vanishes : (factoring interpretation).near
        (some (a * (first - first) * (a * (first - first)))) (some 0) = true := by
      simp [factoring, Interpretation.arithmetic]
    obtain ⟨scale, isScale⟩ := quotient_den_mul_den interpretation a first first
    rw [if_pos vanishes, fractionAt_of_root first twice (by push_cast; ring) firstSmall,
      except_ok_bind]
    dsimp only
    rw [isScale]
    exact ⟨_, rfl⟩
  · have different : ¬ (factoring interpretation).near
        (some (a * (first - second) * (a * (first - second)))) (some 0) = true := by
      simp [factoring, Interpretation.arithmetic, leading, sub_eq_zero, double]
    rw [if_neg different, factoring_root_mul_self, except_ok_bind, factoring_add,
      factoring_subtract]
    obtain ⟨upper, lower, isUpper, isLower, upperSmall, lowerSmall⟩ :=
      roots_of_distance a firstSmall secondSmall
    rw [fractionAt_of_root upper twice isUpper upperSmall, except_ok_bind,
      fractionAt_of_root lower twice isLower lowerSmall, except_ok_bind]
    obtain ⟨scale, isScale⟩ := quotient_den_mul_den interpretation a
      (if upper < lower then (lower, upper) else (upper, lower)).1
      (if upper < lower then (lower, upper) else (upper, lower)).2
    dsimp only
    rw [isScale]
    exact ⟨_, rfl⟩

/-- In exact arithmetic the quotient left by a root is an exact one, up to the value at
the root, and a quadratic polynomial whose roots are simple fractions is split into
factors that multiply to it. -/
theorem linear_factors_exact (interpretation : Interpretation) :
    (∀ (numbers : List ℚ) (root : ℚ), ∃ rest : List ℚ,
      (Factorization.deflate (factoring interpretation) (some root) (numbers.map some)).map
        ((factoring interpretation).div · ((factoring interpretation).ofInt root.den)) =
        rest.map some ∧
      rest.length = numbers.length - 1 ∧
      ofCoefficients numbers = (C (root.den : ℚ) * X - C (root.num : ℚ)) * ofCoefficients rest +
        C ((ofCoefficients numbers).eval root)) ∧
    ∀ (name : String) (c b a first second : ℚ), a ≠ 0 →
      (C a * X ^ 2 + C b * X + C c).roots = {first, second} →
      first.den ≤ 100 → second.den ≤ 100 →
      ∃ factors, Factorization.quadratic? (factoring interpretation) name (some c) (some b)
          (some a) = .ok (some factors) ∧
        ∀ point : String → ℚ, FactorsDenote (valuationAt interpretation point) factors
          ((C a * X ^ 2 + C b * X + C c).eval (point name)) := by
  refine ⟨deflate_divided interpretation, ?_⟩
  intro name c b a first second leading roots firstSmall secondSmall
  obtain ⟨rfl, rfl⟩ := (roots_quadratic_eq_pair_iff_of_ne_zero leading).mp roots
  obtain ⟨factors, areFactors⟩ := quadratic?_of_roots leading firstSmall secondSmall
  refine ⟨factors, areFactors, fun point => ?_⟩
  have bound : ∀ name, (valuationAt interpretation point).bindings name =
      some (some (point name)) := fun _ => rfl
  have denote := quadratic?_denote bound areFactors
  have sameValue : polynomialValue (point name) [a * first * second, -a * (first + second), a] =
      (C a * X ^ 2 + C (-a * (first + second)) * X + C (a * first * second)).eval
        (point name) := by
    simp only [polynomialValue_cons, polynomialValue_nil, eval_add, eval_mul, eval_pow, eval_C,
      eval_X]
    ring
  rwa [← sameValue]

/-- Two different roots and a double one. -/
theorem linear_factors_of_half_and_third :
    ((6 : ℚ) ≠ 0 ∧ (C 6 * X ^ 2 + C (-5) * X + C 1 : ℚ[X]).roots = {1 / 2, 1 / 3} ∧
      (4 : ℚ) ≠ 0 ∧ (C 4 * X ^ 2 + C (-4) * X + C 1 : ℚ[X]).roots = {1 / 2, 1 / 2} ∧
      (1 / 2 : ℚ).den ≤ 100 ∧ (1 / 3 : ℚ).den ≤ 100) ∧
    (∃ factors, Factorization.quadratic? (factoring atThree.interpretation) "x" (some 1)
        (some (-5)) (some 6) = .ok (some factors) ∧
      ∀ point : String → ℚ, FactorsDenote (valuationAt atThree.interpretation point) factors
        ((C 6 * X ^ 2 + C (-5) * X + C 1 : ℚ[X]).eval (point "x"))) ∧
    ∃ factors, Factorization.quadratic? (factoring atThree.interpretation) "x" (some 1)
        (some (-4)) (some 4) = .ok (some factors) ∧
      ∀ point : String → ℚ, FactorsDenote (valuationAt atThree.interpretation point) factors
        ((C 4 * X ^ 2 + C (-4) * X + C 1 : ℚ[X]).eval (point "x")) := by
  have different : (C 6 * X ^ 2 + C (-5) * X + C 1 : ℚ[X]).roots = {1 / 2, 1 / 3} :=
    (roots_quadratic_eq_pair_iff_of_ne_zero (by norm_num)).mpr (by norm_num)
  have double : (C 4 * X ^ 2 + C (-4) * X + C 1 : ℚ[X]).roots = {1 / 2, 1 / 2} :=
    (roots_quadratic_eq_pair_iff_of_ne_zero (by norm_num)).mpr (by norm_num)
  have half : (1 / 2 : ℚ).den ≤ 100 := by decide +kernel
  have third : (1 / 3 : ℚ).den ≤ 100 := by decide +kernel
  exact ⟨⟨by norm_num, different, by norm_num, double, half, third⟩,
    (linear_factors_exact atThree.interpretation).2 "x" 1 (-5) 6 (1 / 2) (1 / 3) (by norm_num)
      different half third,
    (linear_factors_exact atThree.interpretation).2 "x" 1 (-4) 4 (1 / 2) (1 / 2) (by norm_num)
      double half half⟩

end Quadratics

end Exact

end ExprCalculus
