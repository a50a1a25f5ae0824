import ExprCalculus.Calculus.Antiderivative
import ExprCalculus.Proofs.Calculus.AffineReading
import Mathlib.Tactic.LinearCombination
import Mathlib.Tactic.NormNum

/-!
# Slopes of elementary functions

Elementary functions have their textbook slopes, and the functions that stand in
denominators do not vanish at an element with a constant slope other than zero.  Each
rule of the table of antiderivatives has the function of its name as its slope.
-/

namespace ExprCalculus

namespace Reading

variable {C K : Type} [Field C] [LinearOrder C] [Field K] [Algebra C K]
  {constants : Constants C} {reading : Reading C K} {name : String}

section Nonvanishing

variable {u : K} {slope : C} (moves : reading.Moves u slope)

include moves

omit [LinearOrder C] in
theorem Moves.slope_ne_zero : algebraMap C K slope ≠ 0 := by
  simpa using moves.1

omit [LinearOrder C] in
theorem Moves.ne_zero : u ≠ 0 := by
  rintro rfl
  apply moves.slope_ne_zero
  rw [← moves.2, map_zero]

variable (textbook : IsTextbook constants reading name)

include textbook

theorem cos_ne_zero : reading.unary .cos u ≠ 0 := by
  intro zero
  have sine : reading.unary .sin u * algebraMap C K slope = 0 := by
    rw [← neg_eq_zero, ← textbook.derivation_cos moves, zero, map_zero]
  have square := textbook.sin_sq_add_cos_sq moves
  rw [zero, (mul_eq_zero.mp sine).resolve_right moves.slope_ne_zero] at square
  simp at square

theorem sin_ne_zero : reading.unary .sin u ≠ 0 := by
  intro zero
  have cosine : reading.unary .cos u * algebraMap C K slope = 0 := by
    rw [← textbook.derivation_sin moves, zero, map_zero]
  exact cos_ne_zero moves textbook
    ((mul_eq_zero.mp cosine).resolve_right moves.slope_ne_zero)

theorem cosh_ne_zero : reading.unary .cosh u ≠ 0 := by
  intro zero
  have sine : reading.unary .sinh u * algebraMap C K slope = 0 := by
    rw [← textbook.derivation_cosh moves, zero, map_zero]
  have square := textbook.cosh_sq_sub_sinh_sq moves
  rw [zero, (mul_eq_zero.mp sine).resolve_right moves.slope_ne_zero] at square
  simp at square

theorem one_add_sin_ne_zero : 1 + reading.unary .sin u ≠ 0 := by
  intro zero
  have constant : reading.unary .sin u = -1 := by
    rw [← add_eq_zero_iff_neg_eq.mp zero]
  have cosine := textbook.derivation_sin moves
  rw [constant, map_neg, Derivation.map_one_eq_zero, neg_zero, eq_comm] at cosine
  exact cos_ne_zero moves textbook
    ((mul_eq_zero.mp cosine).resolve_right moves.slope_ne_zero)

theorem one_add_cos_ne_zero : 1 + reading.unary .cos u ≠ 0 := by
  intro zero
  have constant : reading.unary .cos u = -1 := by
    rw [← add_eq_zero_iff_neg_eq.mp zero]
  have sine := textbook.derivation_cos moves
  rw [constant, map_neg, Derivation.map_one_eq_zero, neg_zero, eq_comm, neg_eq_zero] at sine
  exact sin_ne_zero moves textbook
    ((mul_eq_zero.mp sine).resolve_right moves.slope_ne_zero)

end Nonvanishing

section Functions

variable {argument : Expr (Option C)} {u slope : K}
  (slopes : HasSlope constants reading name argument u slope)

include slopes

theorem HasSlope.sin : HasSlope constants reading name argument.sin (reading.unary .sin u)
    (reading.unary .cos u * slope) :=
  slopes.unary rfl rfl fun _ isSlope => value_mul (value_unary (by decide) slopes.isValue) isSlope

theorem HasSlope.cos : HasSlope constants reading name argument.cos (reading.unary .cos u)
    (-reading.unary .sin u * slope) := by
  apply slopes.unary rfl rfl
  intro derivative isSlope
  rw [neg_mul]
  exact value_neg (value_mul (value_unary (by decide) slopes.isValue) isSlope)

theorem HasSlope.sinh : HasSlope constants reading name argument.sinh (reading.unary .sinh u)
    (reading.unary .cosh u * slope) :=
  slopes.unary rfl rfl fun _ isSlope => value_mul (value_unary (by decide) slopes.isValue) isSlope

theorem HasSlope.cosh : HasSlope constants reading name argument.cosh (reading.unary .cosh u)
    (reading.unary .sinh u * slope) :=
  slopes.unary rfl rfl fun _ isSlope => value_mul (value_unary (by decide) slopes.isValue) isSlope

theorem HasSlope.exp : HasSlope constants reading name argument.exp (reading.unary .exp u)
    (reading.unary .exp u * slope) :=
  slopes.unary rfl rfl fun _ isSlope => value_mul (value_unary (by decide) slopes.isValue) isSlope

theorem HasSlope.abs : HasSlope constants reading name argument.abs (reading.unary .abs u)
    (reading.unary .sign u * slope) :=
  slopes.unary rfl rfl fun _ isSlope => value_mul (value_unary (by decide) slopes.isValue) isSlope

theorem HasSlope.ln (nonzero : u ≠ 0) : HasSlope constants reading name argument.ln
    (reading.unary .ln u) (1 / u * slope) := by
  apply slopes.unary rfl rfl
  intro derivative isSlope
  rw [one_div_mul_eq_div]
  exact value_div isSlope slopes.isValue nonzero

theorem HasSlope.sec : HasSlope constants reading name argument.sec (reading.call "sec" [u])
    (reading.call "sec" [u] * reading.unary .tan u * slope) :=
  slopes.call rfl fun _ isSlope => value_mul
    (value_mul (value_call slopes.isValue) (value_unary (by decide) slopes.isValue)) isSlope

theorem HasSlope.csc : HasSlope constants reading name argument.csc (reading.call "csc" [u])
    (-(reading.call "csc" [u] * reading.call "cot" [u]) * slope) := by
  apply slopes.call rfl
  intro derivative isSlope
  rw [neg_mul]
  exact value_neg (value_mul
    (value_mul (value_call slopes.isValue) (value_call slopes.isValue)) isSlope)

variable (textbook : IsTextbook constants reading name)

include textbook

theorem HasSlope.tan : HasSlope constants reading name argument.tan (reading.unary .tan u)
    ((1 + reading.unary .tan u ^ 2) * slope) := by
  apply slopes.unary rfl rfl
  intro derivative isSlope
  have one : reading.value (constants.arithmetic.number 1) = some 1 := by simp
  exact value_mul (value_add one
    (value_square textbook (value_unary (by decide) slopes.isValue))) isSlope

theorem HasSlope.cot : HasSlope constants reading name argument.cot (reading.call "cot" [u])
    (-reading.call "csc" [u] ^ 2 * slope) := by
  apply slopes.call rfl
  intro derivative isSlope
  rw [neg_mul]
  exact value_neg (value_mul (value_square textbook (value_call slopes.isValue)) isSlope)

theorem HasSlope.atan (nonzero : 1 + u ^ 2 ≠ 0) : HasSlope constants reading name argument.atan
    (reading.unary .atan u) (1 / (1 + u ^ 2) * slope) := by
  apply slopes.unary rfl rfl
  intro derivative isSlope
  have one : reading.value (constants.arithmetic.number 1) = some 1 := by simp
  rw [one_div_mul_eq_div]
  exact value_div isSlope (value_add one (value_square textbook slopes.isValue)) nonzero

/-- The logarithm of the magnitude of an expression. -/
theorem HasSlope.lnAbs (nonzero : u ≠ 0) : HasSlope constants reading name argument.abs.ln
    (reading.unary .ln (reading.unary .abs u)) (slope / u) := by
  have quotient := textbook.sign_div_abs nonzero
  have magnitude : reading.unary .abs u ≠ 0 := by
    intro zero
    rw [zero, div_zero] at quotient
    exact one_div_ne_zero nonzero quotient.symm
  have slopes := slopes.abs.ln magnitude
  have total : 1 / reading.unary .abs u * (reading.unary .sign u * slope) = slope / u := by
    rw [← mul_assoc, one_div_mul_eq_div, quotient, one_div_mul_eq_div]
  rwa [total] at slopes

end Functions

section Table

variable {argument : Expr (Option C)} {u : K} {slope : C}

section Rules

variable (textbook : IsTextbook constants reading name)
  (slopes : HasSlope constants reading name argument u (algebraMap C K slope))
  (moves : reading.Moves u slope)

include textbook slopes moves

theorem slope_ln_sec_add_tan : ∃ element, HasSlope constants reading name
    (argument.sec + argument.tan).abs.ln element
      (reading.call "sec" [u] * algebraMap C K slope) := by
  have cosine := cos_ne_zero moves textbook
  have circle := textbook.sin_sq_add_cos_sq moves
  have sum : 1 / reading.unary .cos u + reading.unary .sin u / reading.unary .cos u ≠ 0 := by
    rw [← add_div]
    exact div_ne_zero (one_add_sin_ne_zero moves textbook) cosine
  rw [← textbook.call_sec moves, ← textbook.tan_eq moves] at sum
  refine ⟨_, ((slopes.sec.add (slopes.tan textbook)).lnAbs textbook sum).congr ?_⟩
  rw [div_eq_iff sum, textbook.call_sec moves, textbook.tan_eq moves]
  field_simp
  linear_combination algebraMap C K slope * circle

theorem slope_ln_csc_add_cot : ∃ element, HasSlope constants reading name
    (-(argument.csc + argument.cot).abs.ln) element
      (reading.call "csc" [u] * algebraMap C K slope) := by
  have sine := sin_ne_zero moves textbook
  have sum : 1 / reading.unary .sin u + reading.unary .cos u / reading.unary .sin u ≠ 0 := by
    rw [← add_div]
    exact div_ne_zero (one_add_cos_ne_zero moves textbook) sine
  rw [← textbook.call_csc moves, ← textbook.call_cot moves] at sum
  refine ⟨_, ((slopes.csc.add (slopes.cot textbook)).lnAbs textbook sum).neg.congr ?_⟩
  rw [neg_eq_iff_eq_neg, div_eq_iff sum, textbook.call_csc moves, textbook.call_cot moves]
  ring

omit textbook in
theorem slope_mul_ln_sub : HasSlope constants reading name (argument * argument.ln - argument)
    (u * reading.unary .ln u - u) (reading.unary .ln u * algebraMap C K slope) := by
  have nonzero := moves.ne_zero
  apply ((slopes.mul (slopes.ln nonzero)).sub slopes).congr
  field_simp
  ring

theorem slope_mul_ln_sub_div_ln_ten : ∃ element, HasSlope constants reading name
    ((argument * argument.ln - argument) / (constants.arithmetic.number 10).ln) element
      (reading.unary .log10 u * algebraMap C K slope) := by
  have base := textbook.ln_ten_ne_zero
  have ten : HasSlope constants reading name (constants.arithmetic.number 10).ln
      (reading.unary .ln 10) 0 := by
    apply HasSlope.of_not_mentions _ rfl
    change reading.value (.unary .ln _) = _
    simpa using value_unary (by decide) (value_number constants 10)
  refine ⟨_, ((slope_mul_ln_sub slopes moves).div ten textbook base).congr ?_⟩
  rw [textbook.log10_eq moves]
  field_simp
  ring

theorem slope_power_three_halves [CharZero C] : ∃ element, HasSlope constants reading name
    (.const (constants.arithmetic.div (constants.arithmetic.ofInt 2) (constants.arithmetic.ofInt 3)) *
      argument ^ (.const (constants.arithmetic.div (constants.arithmetic.ofInt 3)
        (constants.arithmetic.ofInt 2)) : Expr (Option C))) element
      (reading.unary .sqrt u * algebraMap C K slope) := by
  have charZero : CharZero K := Algebra.charZero_of_charZero C K
  have twoThirds : constants.arithmetic.div (constants.arithmetic.ofInt 2)
      (constants.arithmetic.ofInt 3) = some (2 / 3) := by
    simp [Arithmetic.div, Constants.arithmetic, Constants.binaryValue]
  have threeHalves : constants.arithmetic.div (constants.arithmetic.ofInt 3)
      (constants.arithmetic.ofInt 2) = some (3 / 2) := by
    simp [Arithmetic.div, Constants.arithmetic, Constants.binaryValue]
  have half : algebraMap C K (3 / 2) - 1 = 1 / 2 := by
    rw [map_div₀, map_ofNat, map_ofNat]
    norm_num
  rw [twoThirds, threeHalves]
  refine ⟨_, ((HasSlope.const (2 / 3)).mul (slopes.power (HasSlope.const (3 / 2)) rfl)).congr ?_⟩
  rw [textbook.sqrt_eq moves, half, map_div₀, map_div₀, map_ofNat, map_ofNat]
  field_simp
  ring

/-- The rules of the table of antiderivatives. -/
theorem exists_rule_slope [CharZero C] {function : String}
    {rule : Expr (Option C) → Expr (Option C)}
    (isRule : Antiderivative.rule? constants.arithmetic function = some rule) :
    ∃ element, HasSlope constants reading name (rule argument) element
      (reading.call function [u] * algebraMap C K slope) := by
  have cosine := cos_ne_zero moves textbook
  have sine := sin_ne_zero moves textbook
  have hyperbolic := cosh_ne_zero moves textbook
  have word : ∀ operator word, UnaryOperator.word? operator = some word →
      reading.call word [u] = reading.unary operator u :=
    fun operator word isWord => textbook.call_word isWord moves
  unfold Antiderivative.rule? at isRule
  split at isRule <;> cases isRule
  · refine ⟨_, slopes.cos.neg.congr ?_⟩
    rw [word .sin "sin" rfl]
    ring
  · exact ⟨_, slopes.sin.congr (by rw [word .cos "cos" rfl])⟩
  · refine ⟨_, (slopes.cos.lnAbs textbook cosine).neg.congr ?_⟩
    rw [word .tan "tan" rfl, textbook.tan_eq moves]
    ring
  · exact slope_ln_sec_add_tan textbook slopes moves
  · exact slope_ln_csc_add_cot textbook slopes moves
  · refine ⟨_, (slopes.sin.lnAbs textbook sine).congr ?_⟩
    rw [textbook.call_cot moves]
    ring
  · exact ⟨_, slopes.exp.congr (by rw [word .exp "exp" rfl])⟩
  · rw [word .ln "ln" rfl]
    exact ⟨_, slope_mul_ln_sub slopes moves⟩
  · rw [textbook.call_log moves]
    exact ⟨_, slope_mul_ln_sub slopes moves⟩
  · rw [word .log10 "log10" rfl]
    exact slope_mul_ln_sub_div_ln_ten textbook slopes moves
  · rw [word .sqrt "sqrt" rfl]
    exact slope_power_three_halves textbook slopes moves
  · exact ⟨_, slopes.cosh.congr (by rw [word .sinh "sinh" rfl])⟩
  · exact ⟨_, slopes.sinh.congr (by rw [word .cosh "cosh" rfl])⟩
  · refine ⟨_, (slopes.cosh.ln hyperbolic).congr ?_⟩
    rw [word .tanh "tanh" rfl, textbook.tanh_eq moves]
    ring

end Rules

end Table

end Reading

end ExprCalculus
