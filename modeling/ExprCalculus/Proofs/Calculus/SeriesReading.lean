import ExprCalculus.Proofs.Calculus.Reading
import Mathlib

/-!
# Reading expressions as Laurent series

The Laurent series over the real numbers are a differential field.  A function of a
real number is read by its Taylor series, which the linear part of its argument
determines where the argument is affine.
-/

namespace ExprCalculus

namespace Series

open HahnSeries

section Slopes

theorem coeff_slope (series : LaurentSeries ℝ) (place : ℤ) :
    (LaurentSeries.derivative ℝ series).coeff place =
      (place + 1 : ℝ) * series.coeff (place + 1) := by
  simp

theorem slope_powerSeries (series : PowerSeries ℝ) :
    LaurentSeries.derivative ℝ (ofPowerSeries ℤ ℝ series) =
      ofPowerSeries ℤ ℝ (PowerSeries.derivative ℝ series) := by
  ext place
  rw [coeff_slope, PowerSeries.coeff_coe, PowerSeries.coeff_coe]
  rcases lt_trichotomy place (-1) with below | rfl | above
  · rw [if_pos (by omega), if_pos (by omega), mul_zero]
  · norm_num
  · obtain ⟨index, rfl⟩ := Int.eq_ofNat_of_zero_le (show 0 ≤ place by omega)
    rw [if_neg (by omega), if_neg (by omega), PowerSeries.coeff_derivative, mul_comm]
    norm_cast

theorem slope_one : LaurentSeries.derivative ℝ (1 : LaurentSeries ℝ) = 0 := by
  rw [← map_one (ofPowerSeries ℤ ℝ), slope_powerSeries, Derivation.map_one_eq_zero, map_zero]

theorem slope_C_mul (number : ℝ) (series : LaurentSeries ℝ) :
    LaurentSeries.derivative ℝ (C number * series) =
      C number * LaurentSeries.derivative ℝ series := by
  ext place
  rw [coeff_slope, C_apply, coeff_single_mul, coeff_single_mul, coeff_slope, sub_zero, sub_zero,
    mul_left_comm]

theorem slope_single_mul (place : ℤ) (series : LaurentSeries ℝ) :
    LaurentSeries.derivative ℝ (single place 1 * series) =
      single (place - 1) (place : ℝ) * series +
        single place 1 * LaurentSeries.derivative ℝ series := by
  ext index
  have lowered : index - (place - 1) = index + 1 - place := by ring
  have raised : index - place + 1 = index + 1 - place := by ring
  rw [coeff_slope, coeff_add, coeff_single_mul, coeff_single_mul, coeff_single_mul, coeff_slope,
    lowered, raised]
  push_cast
  ring

/-- The product rule.  Every series is a power series up to a power of the variable. -/
theorem slope_mul (first second : LaurentSeries ℝ) :
    LaurentSeries.derivative ℝ (first * second) =
      first * LaurentSeries.derivative ℝ second +
        second * LaurentSeries.derivative ℝ first := by
  have shifted (place : ℤ) (series : PowerSeries ℝ) :
      LaurentSeries.derivative ℝ (single place 1 * ofPowerSeries ℤ ℝ series) =
        single (place - 1) (place : ℝ) * ofPowerSeries ℤ ℝ series +
          single place 1 * ofPowerSeries ℤ ℝ (PowerSeries.derivative ℝ series) := by
    rw [slope_single_mul, slope_powerSeries]
  rw [← LaurentSeries.single_order_mul_powerSeriesPart first,
    ← LaurentSeries.single_order_mul_powerSeriesPart second]
  generalize first.order = m, second.order = n, first.powerSeriesPart = p,
    second.powerSeriesPart = q
  have product : (single m 1 : LaurentSeries ℝ) * single n 1 = single (m + n) 1 := by
    rw [single_mul_single, one_mul]
  have left : (single n 1 : LaurentSeries ℝ) * single (m - 1) (m : ℝ) =
      single (m + n - 1) (m : ℝ) := by
    rw [single_mul_single, one_mul, ← add_sub_assoc, add_comm]
  have right : (single m 1 : LaurentSeries ℝ) * single (n - 1) (n : ℝ) =
      single (m + n - 1) (n : ℝ) := by
    rw [single_mul_single, one_mul, add_sub_assoc]
  have sum : (single (m + n - 1) ((m + n : ℤ) : ℝ) : LaurentSeries ℝ) =
      single (m + n - 1) (m : ℝ) + single (m + n - 1) (n : ℝ) := by
    rw [← single_add, Int.cast_add]
  rw [mul_mul_mul_comm, product, ← map_mul, shifted, shifted, shifted, Derivation.leibniz, sum,
    ← product, ← left, ← right]
  simp only [map_mul, map_add, smul_eq_mul]
  ring

end Slopes

section Elements

/-- Laurent series with real coefficients, over the real numbers. -/
def Element := LaurentSeries ℝ

noncomputable instance : Field Element :=
  inferInstanceAs (Field (LaurentSeries ℝ))

noncomputable instance : Algebra ℝ Element :=
  RingHom.toAlgebra (HahnSeries.C : ℝ →+* LaurentSeries ℝ)

instance : CharZero Element :=
  Algebra.charZero_of_charZero ℝ Element

def Element.coeff (series : Element) (place : ℤ) : ℝ :=
  HahnSeries.coeff series place

noncomputable def Element.leadingCoeff (series : Element) : ℝ :=
  HahnSeries.leadingCoeff series

/-- The series without negative powers. -/
noncomputable def ofPowers : PowerSeries ℝ →+* Element :=
  HahnSeries.ofPowerSeries ℤ ℝ

theorem ofPowers_C (number : ℝ) : ofPowers (PowerSeries.C number) = algebraMap ℝ Element number :=
  HahnSeries.ofPowerSeries_C number

@[simp]
theorem coeff_zero_algebraMap (number : ℝ) : (algebraMap ℝ Element number).coeff 0 = number :=
  coeff_single_same 0 number

@[simp]
theorem coeff_one_algebraMap (number : ℝ) : (algebraMap ℝ Element number).coeff 1 = 0 :=
  coeff_single_of_ne one_ne_zero

noncomputable def derivation : Derivation ℝ Element Element where
  toFun := LaurentSeries.derivative ℝ (V := ℝ)
  map_add' := (LaurentSeries.derivative ℝ (V := ℝ)).map_add
  map_smul' := slope_C_mul
  map_one_eq_zero' := slope_one
  leibniz' := slope_mul

theorem derivation_ofPowers (series : PowerSeries ℝ) :
    derivation (ofPowers series) = ofPowers (PowerSeries.derivative ℝ series) :=
  slope_powerSeries series

noncomputable def indeterminate : Element :=
  ofPowers PowerSeries.X

theorem derivation_indeterminate : derivation indeterminate = 1 := by
  rw [indeterminate, derivation_ofPowers, PowerSeries.derivative_X, map_one]

theorem coeff_one_of_derivation {series : Element} {slope : ℝ}
    (isSlope : derivation series = algebraMap ℝ Element slope) : series.coeff 1 = slope := by
  have constant : (derivation series).coeff 0 = slope := by
    rw [isSlope, coeff_zero_algebraMap]
  have shifted : (derivation series).coeff 0 = ((0 : ℤ) + 1 : ℝ) * series.coeff (0 + 1) :=
    coeff_slope series 0
  rw [← constant, shifted]
  simp

end Elements

section Taylor

/-- The Taylor series of a function at a point, in a multiple of the variable. -/
noncomputable def taylor (function : ℝ → ℝ) (point scale : ℝ) : PowerSeries ℝ :=
  .mk fun index => iteratedDeriv index function point * scale ^ index / index.factorial

@[simp]
theorem constantCoeff_taylor (function : ℝ → ℝ) (point scale : ℝ) :
    (taylor function point scale).constantCoeff = function point := by
  simp [taylor, ← PowerSeries.coeff_zero_eq_constantCoeff_apply]

theorem taylor_zero (function : ℝ → ℝ) (point : ℝ) :
    taylor function point 0 = PowerSeries.C (function point) := by
  ext index
  cases index <;> simp [taylor, PowerSeries.coeff_C]

theorem derivative_taylor (function : ℝ → ℝ) (point scale : ℝ) :
    PowerSeries.derivative ℝ (taylor function point scale) =
      taylor (deriv function) point scale * PowerSeries.C scale := by
  ext index
  rw [PowerSeries.coeff_derivative, PowerSeries.coeff_mul_C]
  simp only [taylor, PowerSeries.coeff_mk, iteratedDeriv_succ', Nat.factorial_succ]
  push_cast
  field_simp
  ring

theorem taylor_neg (function : ℝ → ℝ) (point scale : ℝ) :
    taylor (-function) point scale = -taylor function point scale := by
  ext index
  simp [taylor, neg_div, neg_mul]

theorem deriv_cos_eq : deriv Real.cos = -Real.sin := by
  ext number
  exact Real.deriv_cos

theorem taylor_sin_sq_add_cos_sq (point scale : ℝ) :
    taylor Real.sin point scale ^ 2 + taylor Real.cos point scale ^ 2 = 1 := by
  apply PowerSeries.derivative.ext
  · simp only [map_add, PowerSeries.derivative_pow, derivative_taylor, Real.deriv_sin, deriv_cos_eq,
      taylor_neg, Derivation.map_one_eq_zero]
    ring
  · simp

theorem taylor_cosh_sq_sub_sinh_sq (point scale : ℝ) :
    taylor Real.cosh point scale ^ 2 - taylor Real.sinh point scale ^ 2 = 1 := by
  apply PowerSeries.derivative.ext
  · simp only [map_sub, PowerSeries.derivative_pow, derivative_taylor, Real.deriv_sinh,
      Real.deriv_cosh, Derivation.map_one_eq_zero]
    ring
  · simp

noncomputable def along (function : ℝ → ℝ) (series : Element) : Element :=
  ofPowers (taylor function (series.coeff 0) (series.coeff 1))

@[simp]
theorem along_algebraMap (function : ℝ → ℝ) (number : ℝ) :
    along function (algebraMap ℝ Element number) = algebraMap ℝ Element (function number) := by
  rw [along, coeff_zero_algebraMap, coeff_one_algebraMap, taylor_zero, ofPowers_C]

section Affine

variable {series : Element} {slope : ℝ} (isSlope : derivation series = algebraMap ℝ Element slope)

include isSlope

theorem derivation_along (function : ℝ → ℝ) :
    derivation (along function series) =
      along (deriv function) series * algebraMap ℝ Element slope := by
  rw [along, derivation_ofPowers, derivative_taylor, map_mul, ofPowers_C,
    coeff_one_of_derivation isSlope, along, coeff_one_of_derivation isSlope]

theorem derivation_along_sin : derivation (along Real.sin series) =
    along Real.cos series * algebraMap ℝ Element slope := by
  rw [derivation_along isSlope, Real.deriv_sin]

theorem derivation_along_cos : derivation (along Real.cos series) =
    -(along Real.sin series * algebraMap ℝ Element slope) := by
  rw [derivation_along isSlope, deriv_cos_eq, along, taylor_neg, map_neg, neg_mul, along]

theorem derivation_along_cosh : derivation (along Real.cosh series) =
    along Real.sinh series * algebraMap ℝ Element slope := by
  rw [derivation_along isSlope, Real.deriv_cosh]

end Affine

theorem along_sin_sq_add_cos_sq (series : Element) :
    along Real.sin series ^ 2 + along Real.cos series ^ 2 = 1 := by
  rw [along, along, ← map_pow, ← map_pow, ← map_add, taylor_sin_sq_add_cos_sq, map_one]

theorem along_cosh_sq_sub_sinh_sq (series : Element) :
    along Real.cosh series ^ 2 - along Real.sinh series ^ 2 = 1 := by
  rw [along, along, ← map_pow, ← map_pow, ← map_sub, taylor_cosh_sq_sub_sinh_sq, map_one]

end Taylor

section Functions

noncomputable def function : UnaryOperator → ℝ → ℝ
  | .negate => fun number => -number
  | .sin => Real.sin
  | .cos => Real.cos
  | .tan => Real.tan
  | .asin => Real.arcsin
  | .acos => Real.arccos
  | .atan => Real.arctan
  | .sinh => Real.sinh
  | .cosh => Real.cosh
  | .tanh => Real.tanh
  | .exp => Real.exp
  | .ln => Real.log
  | .log10 => Real.logb 10
  | .sqrt => Real.sqrt
  | .abs => fun number => |number|
  | .floor => fun number => ⌊number⌋
  | .ceiling => fun number => ⌈number⌉
  | .round => fun number => round number
  | .sign => fun number => SignType.sign number
  | .factorial => fun number => Nat.factorial ⌊number⌋₊

/-- Where an operator is defined. -/
def domain : UnaryOperator → ℝ → Prop
  | .tan, number => Real.cos number ≠ 0
  | .asin, number | .acos, number => |number| ≤ 1
  | .ln, number | .log10, number => 0 < number
  | .sqrt, number => 0 ≤ number
  | .round, number => Int.fract number ≠ 1 / 2
  | .factorial, number => ∃ natural : ℕ, number = natural
  | _, _ => True

open Classical in
/-- The real numbers, with the powers of positive numbers and the whole powers. -/
noncomputable def constants : Constants ℝ where
  unary operator number := if domain operator number then some (function operator number) else none
  binary
    | .power, base, exponent =>
        if 0 < base ∨ (∃ whole : ℤ, exponent = whole) ∧ (base ≠ 0 ∨ 0 ≤ exponent) then
          some (base ^ exponent)
        else none
    | _, _, _ => none
  named? _ := none
  sqrt := Real.sqrt
  euler := Real.exp 1

open Classical in
noncomputable def power (base exponent : Element) : Element :=
  if whole : ∃ number : ℤ, exponent = number then base ^ whole.choose
  else if base = algebraMap ℝ Element (base.coeff 0) then
    along (fun number => base.coeff 0 ^ number) exponent
  else along (fun number => number ^ exponent.coeff 0) base

/-- The sign of a series for small positive values of the variable. -/
noncomputable def sign (series : Element) : Element :=
  algebraMap ℝ Element (SignType.sign series.leadingCoeff : ℝ)

/-- The reading of an operator.  Where a Taylor series does not exist, the operator is
read through its definition by others. -/
noncomputable def unary : UnaryOperator → Element → Element
  | .tan, series => along Real.sin series / along Real.cos series
  | .tanh, series => along Real.sinh series / along Real.cosh series
  | .log10, series => along Real.log series / along Real.log 10
  | .sqrt, series => power series (1 / 2)
  | .sign, series => sign series
  | .abs, series => sign series * series
  | operator, series => along (function operator) series

def operators : List UnaryOperator :=
  [.sin, .cos, .tan, .asin, .acos, .atan, .sinh, .cosh, .tanh, .exp, .ln, .log10, .sqrt, .abs,
    .floor, .ceiling, .round, .sign]

noncomputable def call (name : String) : List Element → Element
  | [series] =>
      match operators.find? (·.word? = some name), name with
      | some operator, _ => unary operator series
      | none, "sec" => 1 / unary .cos series
      | none, "csc" => 1 / unary .sin series
      | none, "cot" => unary .cos series / unary .sin series
      | none, "log" => unary .ln series
      | none, _ => 0
  | _ => 0

/-- A name is read as the variable of the series, and the others as constants. -/
noncomputable def reading (name : String) (others : String → ℝ)
    (marker : Expr (Option ℝ) → String → Element) : Reading ℝ Element where
  derivation := derivation
  named other := if other = name then indeterminate else algebraMap ℝ Element (others other)
  unary := unary
  binary
    | .power, base, exponent => power base exponent
    | _, _, _ => 0
  call := call
  marker := marker

end Functions

section Textbook

theorem power_whole (base : Element) (exponent : ℤ) : power base exponent = base ^ exponent := by
  have whole : ∃ number : ℤ, (exponent : Element) = number := ⟨exponent, rfl⟩
  have chosen : whole.choose = exponent := Int.cast_injective whole.choose_spec.symm
  rw [power, dif_pos whole, chosen]

theorem power_algebraMap (base exponent : ℝ) :
    power (algebraMap ℝ Element base) (algebraMap ℝ Element exponent) =
      algebraMap ℝ Element (base ^ exponent) := by
  by_cases whole : ∃ number : ℤ, exponent = number
  · obtain ⟨number, rfl⟩ := whole
    rw [map_intCast, power_whole, Real.rpow_intCast, map_zpow₀]
  · have notWhole : ¬∃ number : ℤ, algebraMap ℝ Element exponent = number := by
      rintro ⟨number, isNumber⟩
      rw [← map_intCast (algebraMap ℝ Element)] at isNumber
      exact whole ⟨number, (algebraMap ℝ Element).injective isNumber⟩
    rw [power, dif_neg notWhole, coeff_zero_algebraMap, if_pos rfl, along_algebraMap]

theorem sign_algebraMap (number : ℝ) :
    sign (algebraMap ℝ Element number) = algebraMap ℝ Element (SignType.sign number : ℝ) := by
  have leading : (algebraMap ℝ Element number).leadingCoeff = number := leadingCoeff_of_single
  rw [sign, leading]

theorem sign_ne_zero {series : Element} (nonzero : series ≠ 0) : sign series ≠ 0 := by
  have leading : series.leadingCoeff ≠ 0 := leadingCoeff_ne_zero.mpr nonzero
  rcases lt_or_gt_of_ne leading with negative | positive
  · simp [sign, sign_neg negative]
  · simp [sign, sign_pos positive]

theorem unary_algebraMap (operator : UnaryOperator) (number : ℝ) :
    unary operator (algebraMap ℝ Element number) =
      algebraMap ℝ Element (function operator number) := by
  cases operator
  case tan => simp [unary, function, Real.tan_eq_sin_div_cos]
  case tanh => simp [unary, function, Real.tanh_eq_sinh_div_cosh]
  case log10 =>
    rw [unary, ← map_ofNat (algebraMap ℝ Element), along_algebraMap, along_algebraMap, ← map_div₀]
    rfl
  case sqrt =>
    have half : (1 / 2 : Element) = algebraMap ℝ Element (1 / 2) := by
      rw [map_div₀, map_one, map_ofNat]
    rw [unary, half, power_algebraMap, ← Real.sqrt_eq_rpow]
    rfl
  case sign => exact sign_algebraMap number
  case abs => rw [unary, sign_algebraMap, ← map_mul, sign_mul_self, function]
  all_goals exact along_algebraMap _ number

theorem call_word {operator : UnaryOperator} {word : String} (isWord : operator.word? = some word)
    (series : Element) : call word [series] = unary operator series := by
  cases operator <;> cases isWord <;> rfl

variable {name : String} {others : String → ℝ} {marker : Expr (Option ℝ) → String → Element}

/-- The reading as Laurent series satisfies the textbook equations. -/
theorem isTextbook :
    Reading.IsTextbook constants (reading name others marker) name where
  unary_const := by
    intro operator operand result isResult
    obtain ⟨_, same⟩ := Option.ite_none_right_eq_some.mp isResult
    exact (unary_algebraMap operator operand).trans (congrArg _ (Option.some.inj same))
  binary_const := by
    intro operator left right result isResult
    cases operator
    case power =>
      obtain ⟨_, same⟩ := Option.ite_none_right_eq_some.mp isResult
      exact (power_algebraMap left right).trans (congrArg _ (Option.some.inj same))
    all_goals cases isResult
  call_one isApply _ := by cases isApply
  call_two isApply _ := by cases isApply
  sqrt_sq positive := Real.sq_sqrt positive.le
  euler_ne_zero := Real.exp_ne_zero 1
  ln_euler := by
    refine (unary_algebraMap .ln (Real.exp 1)).trans ?_
    rw [function, Real.log_exp, map_one]
  ln_ten_ne_zero := by
    have ten : unary .ln 10 = algebraMap ℝ Element (Real.log 10) := by
      rw [← map_ofNat (algebraMap ℝ Element), unary_algebraMap]
      rfl
    have positive : 0 < Real.log 10 := Real.log_pos (by norm_num)
    change unary .ln 10 ≠ 0
    rw [ten]
    simpa using positive.ne'
  derivation_named := by simpa [reading] using derivation_indeterminate
  power_whole _ := power_whole _ _
  sign_div_abs {element} nonzero := by
    change sign element / (sign element * element) = 1 / element
    rw [div_mul_cancel_left₀ (sign_ne_zero nonzero), one_div]
  derivation_sin moves := derivation_along_sin moves.2
  derivation_cos moves := derivation_along_cos moves.2
  derivation_cosh moves := derivation_along_cosh moves.2
  sin_sq_add_cos_sq _ := along_sin_sq_add_cos_sq _
  cosh_sq_sub_sinh_sq _ := along_cosh_sq_sub_sinh_sq _
  tan_eq _ := rfl
  tanh_eq _ := rfl
  log10_eq _ := rfl
  sqrt_eq _ := rfl
  call_sec _ := rfl
  call_csc _ := rfl
  call_cot _ := rfl
  call_log _ := rfl
  call_word isWord _ := call_word isWord _

end Textbook

end Series

end ExprCalculus
