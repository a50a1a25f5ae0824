import ExprCalculus.Proofs.Combinatorics.Counting
import ExprCalculus.Proofs.Doubles.Values
import ExprCalculus.Proofs.Outcomes
import Mathlib.Analysis.Complex.ExponentialBounds
import Mathlib.Analysis.SpecialFunctions.Gamma.Basic

/-!
# The checks before a count is computed

A count is refused if a lower bound of its logarithm is beyond the logarithm of the largest
double by one.  With logarithms that are correct up to one part in a million, only counts
beyond the largest double are refused, and a count that is not refused takes few steps.
-/

namespace ExprCalculus

namespace Combinatorics

open Binary64
open scoped Nat

/-- A logarithm is computed correctly up to one part in a million, or it is infinite and
about as large as the largest double. -/
inductive Approximates (value : Float) (number : ℝ) : Prop
  | finite {exact : ℚ} (isValue : toRat? value = some exact)
      (close : |(exact : ℝ) - number| ≤ number / 10 ^ 6)
  | infinite (isInfinite : value = infinity)
      (large : (largestNumber : ℝ) ≤ number * (1 + 1 / 10 ^ 6))

/-- The logarithms that the checks for two arguments are made of are correct up to one part
in a million. -/
structure Logarithms.AccurateAt (logarithms : Logarithms) (total part : ℕ) : Prop where
  largest : Approximates (logarithms.log Binary64.largest) (Real.log largestNumber)
  choice : 0 < min part (total - part) →
    Approximates (logarithms.choiceBound total (min part (total - part)))
      ((min part (total - part) : ℕ) * Real.log (total / (min part (total - part) : ℕ)))
  power : Approximates (logarithms.powerBound total part)
    (part * Real.log ((total - part : ℕ) + 1))
  gamma : ∀ value, logarithms.logGamma (part + 1) = .ok value →
    Approximates value (Real.log (Real.Gamma (part + 1)))

theorem Approximates.defined {value : Float} {number : ℝ}
    (approximates : Approximates value number) : value.isNaN = false := by
  cases approximates with
  | finite isValue close => exact (lt_iff.mp (lt_infinity isValue)).1
  | infinite isInfinite large => rw [isInfinite, rank_infinity.1]

section Limit

theorem two_pow_le_largestNumber_real : (2 : ℝ) ^ 31 ≤ largestNumber := by
  exact_mod_cast two_pow_le_largestNumber

theorem log_largestNumber_bounds :
    Real.log 2 ≤ Real.log largestNumber ∧ Real.log largestNumber < 709.7828 := by
  have atLeastTwo : (2 : ℝ) ≤ largestNumber := by linarith [two_pow_le_largestNumber_real]
  have small : (largestNumber : ℝ) < 2 ^ 1024 := by
    exact_mod_cast (show largestNumber < 2 ^ 1024 by decide +kernel)
  refine ⟨Real.log_le_log zero_lt_two atLeastTwo, ?_⟩
  have logSmall := Real.log_lt_log (by linarith) small
  rw [Real.log_pow, Nat.cast_ofNat] at logSmall
  linarith [Real.log_two_lt_d9]

variable {logarithms : Logarithms} {bound : Float} {number : ℝ}

theorem toRat_one : toRat? 1.0 = some 1 :=
  isWhole_one

/-- One is added to a double that is neither small nor very large. -/
theorem exists_add_one {value : Float} {logarithm : ℚ} (isValue : toRat? value = some logarithm)
    (half : 1 / 2 ≤ logarithm) (small : logarithm ≤ 1000) :
    ∃ exact, toRat? (value + 1.0) = some exact ∧ logarithm + 0.999 ≤ exact ∧
      exact ≤ logarithm + 1.001 := by
  have slackSmall : (logarithm + 1) * slack ^ 1 ≤ logarithm + 1.001 := by
    rw [pow_one, slack]
    linarith
  have notLarge : (logarithm + 1) * slack ^ 1 ≤ largestNumber := by
    have huge : (2 : ℚ) ^ 31 ≤ largestNumber := by exact_mod_cast two_pow_le_largestNumber
    linarith
  have rounded := withinRoundings_add isValue half toRat_one (by norm_num)
  obtain ⟨exact, isExact, below, above⟩ := rounded.exists_exact (rounded.isInf_eq_false notLarge)
  refine ⟨exact, isExact, ?_, above.trans slackSmall⟩
  rw [pow_one, slack] at below
  linarith

/-- The limit is finite and larger than the logarithm of the largest double by about one. -/
theorem exists_limit
    (accurate : Approximates (logarithms.log Binary64.largest) (Real.log largestNumber)) :
    ∃ exact : ℚ, toRat? logarithms.limit = some exact ∧
      Real.log largestNumber + 0.99 ≤ exact ∧ (exact : ℝ) ≤ 710.79 := by
  obtain ⟨lower, upper⟩ := log_largestNumber_bounds
  have logTwo := Real.log_two_gt_d9
  cases accurate with
  | infinite isInfinite large => linarith [two_pow_le_largestNumber_real]
  | finite isValue close =>
      obtain ⟨closeBelow, closeAbove⟩ := abs_le.mp close
      rename_i logarithm
      have half : ((1 / 2 : ℚ) : ℝ) ≤ logarithm := by
        push_cast
        linarith
      have small : (logarithm : ℝ) ≤ 1000 := by linarith
      obtain ⟨exact, isLimit, below, above⟩ :=
        exists_add_one isValue (Rat.cast_le.mp half) (by exact_mod_cast small)
      have belowReal : ((logarithm + 0.999 : ℚ) : ℝ) ≤ exact := Rat.cast_le.mpr below
      have aboveReal : (exact : ℝ) ≤ (logarithm + 1.001 : ℚ) := Rat.cast_le.mpr above
      push_cast at belowReal aboveReal
      exact ⟨exact, isLimit, by linarith, by linarith⟩

variable (accurate : Approximates (logarithms.log Binary64.largest) (Real.log largestNumber))
  (approximates : Approximates bound number)
include accurate approximates

/-- A computed logarithm beyond the limit is beyond the logarithm of the largest double. -/
theorem log_largestNumber_lt_of_refused (refused : logarithms.limit < bound) :
    Real.log largestNumber < number := by
  obtain ⟨lower, upper⟩ := log_largestNumber_bounds
  obtain ⟨limit, isLimit, limitBelow, -⟩ := exists_limit accurate
  cases approximates with
  | infinite isInfinite large =>
      linarith [two_pow_le_largestNumber_real]
  | finite isValue close =>
      have beyond := (lt_iff_of_toRat isLimit isValue).mp refused
      have beyondReal : (limit : ℝ) < _ := Rat.cast_lt.mpr beyond
      linarith [(abs_le.mp close).2]

/-- A computed logarithm within the limit is below that of `2 ^ 1026`. -/
theorem lt_of_not_refused (passed : ¬ logarithms.limit < bound) :
    number < 1026 * Real.log 2 := by
  have logTwo := Real.log_two_gt_d9
  obtain ⟨limit, isLimit, -, limitAbove⟩ := exists_limit accurate
  cases approximates with
  | infinite isInfinite large => exact absurd (isInfinite ▸ lt_infinity isLimit) passed
  | finite isValue close =>
      have within := not_lt.mp (passed ∘ (lt_iff_of_toRat isLimit isValue).mpr)
      have withinReal : (_ : ℝ) ≤ limit := Rat.cast_le.mpr within
      linarith [(abs_le.mp close).1]

end Limit

section LowerBounds

variable {total part : ℕ}

theorem mul_log_le_log_choose (positive : 0 < part) (enough : part ≤ total) :
    part * Real.log (total / part) ≤ Real.log (total.choose part) := by
  have totalPositive : (0 : ℝ) < total := Nat.cast_pos.mpr (positive.trans_le enough)
  have partPositive : (0 : ℝ) < part := Nat.cast_pos.mpr positive
  rw [← Real.log_pow, div_pow]
  refine Real.log_le_log (by positivity) ?_
  rw [div_le_iff₀ (by positivity), mul_comm]
  exact_mod_cast pow_le_pow_mul_choose enough

theorem mul_log_le_log_descFactorial (enough : part ≤ total) :
    part * Real.log ((total - part : ℕ) + 1) ≤ Real.log (total.descFactorial part) := by
  have power := Nat.pow_sub_le_descFactorial total part
  rw [show total + 1 - part = total - part + 1 by omega] at power
  rw [← Real.log_pow]
  refine Real.log_le_log (by positivity) ?_
  exact_mod_cast power

theorem log_gamma_eq (part : ℕ) : Real.log (Real.Gamma (part + 1)) = Real.log (part ! : ℕ) := by
  rw [Real.Gamma_nat_eq_factorial]

theorem largestNumber_lt_of_log {count : ℕ} (large : Real.log largestNumber < Real.log count) :
    largestNumber < count := by
  have positive : (0 : ℝ) < largestNumber := by linarith [two_pow_le_largestNumber_real]
  have notZero : count ≠ 0 := by
    rintro rfl
    rw [Nat.cast_zero, Real.log_zero] at large
    linarith [log_largestNumber_bounds.1, Real.log_two_gt_d9]
  exact_mod_cast (Real.log_lt_log_iff positive (Nat.cast_pos.mpr (Nat.pos_of_ne_zero notZero))).mp
    large

/-- A number whose factorial is below `2 ^ 1026` is at most 171. -/
theorem le_of_log_factorial (small : Real.log (part ! : ℕ) < 1026 * Real.log 2) : part ≤ 171 := by
  by_contra large
  have huge : 2 ^ 1026 ≤ 172 ! := by decide +kernel
  have more : 2 ^ 1026 ≤ part ! := huge.trans (Nat.factorial_le (by omega))
  have moreLog : Real.log (2 ^ 1026) ≤ Real.log (part ! : ℕ) :=
    Real.log_le_log (by positivity) (by exact_mod_cast more)
  rw [Real.log_pow, Nat.cast_ofNat] at moreLog
  exact small.not_ge moreLog

end LowerBounds

section Checks

variable {logarithms : Logarithms} {total part : ℕ} (enough : part ≤ total)
  (accurate : logarithms.AccurateAt total part)

/-- A check refuses only counts beyond the largest double, and what it does not refuse takes
few steps. -/
structure SoundCheck (refused : Outcome Bool) (count steps most : ℕ) : Prop where
  refuses : refused = .ok true → largestNumber < count
  passes : refused = .ok false → steps ≤ most

include enough accurate

theorem soundCheck_choice :
    SoundCheck (.ok (logarithms.refusesChoice total (min part (total - part))))
      (total.choose part) (min part (total - part)) 1026 := by
  obtain ⟨largest, choice, -, -⟩ := accurate
  obtain ⟨smaller, isSmaller⟩ : ∃ smaller, min part (total - part) = smaller := ⟨_, rfl⟩
  rw [← choose_min enough]
  rw [isSmaller] at choice ⊢
  constructor
  · intro refused
    rw [Except.ok.injEq, Logarithms.refusesChoice, Bool.and_eq_true, decide_eq_true_eq,
      decide_eq_true_eq] at refused
    obtain ⟨positive, beyond⟩ := refused
    exact largestNumber_lt_of_log
      ((log_largestNumber_lt_of_refused largest (choice positive) beyond).trans_le
        (mul_log_le_log_choose positive (by omega)))
  · intro passed
    rcases Nat.eq_zero_or_pos smaller with rfl | positive
    · exact Nat.zero_le _
    rw [Except.ok.injEq, Logarithms.refusesChoice, decide_eq_true positive, Bool.true_and,
      decide_eq_false_iff_not] at passed
    have within := lt_of_not_refused largest (choice positive) passed
    have positiveReal : (0 : ℝ) < smaller := Nat.cast_pos.mpr positive
    have twice : (2 : ℝ) ≤ total / smaller := by
      rw [le_div_iff₀ positiveReal]
      exact_mod_cast (show 2 * smaller ≤ total by omega)
    have atLeast : smaller * Real.log 2 ≤ smaller * Real.log (total / smaller) :=
      mul_le_mul_of_nonneg_left (Real.log_le_log zero_lt_two twice) positiveReal.le
    have few := lt_of_mul_lt_mul_right (atLeast.trans_lt within) (Real.log_nonneg one_le_two)
    exact_mod_cast few.le

omit enough in
theorem soundCheck_factorial :
    SoundCheck (logarithms.refusesFactorial part) (part !) part 171 := by
  obtain ⟨largest, -, -, gamma⟩ := accurate
  rw [log_gamma_eq] at gamma
  unfold Logarithms.refusesFactorial
  constructor
  · intro refused
    obtain ⟨logarithm, isLogarithm, refused⟩ := except_bind_eq_ok.mp refused
    rw [except_pure, Except.ok.injEq, decide_eq_true_eq] at refused
    exact largestNumber_lt_of_log
      (log_largestNumber_lt_of_refused largest (gamma _ isLogarithm) refused)
  · intro passed
    obtain ⟨logarithm, isLogarithm, passed⟩ := except_bind_eq_ok.mp passed
    rw [except_pure, Except.ok.injEq, decide_eq_false_iff_not] at passed
    exact le_of_log_factorial (lt_of_not_refused largest (gamma _ isLogarithm) passed)

theorem soundCheck_arrangement :
    SoundCheck (logarithms.refusesArrangement total part) (total.descFactorial part) part 171 := by
  obtain ⟨largest, -, power, gamma⟩ := accurate
  rw [log_gamma_eq] at gamma
  unfold Logarithms.refusesArrangement
  constructor
  · intro refused
    obtain ⟨logarithm, isLogarithm, refused⟩ := except_bind_eq_ok.mp refused
    rw [except_pure, Except.ok.injEq, decide_eq_true_eq] at refused
    split at refused
    · have beyond := log_largestNumber_lt_of_refused largest (gamma _ isLogarithm) refused
      exact (largestNumber_lt_of_log beyond).trans_le (factorial_le_descFactorial enough)
    · have beyond := log_largestNumber_lt_of_refused largest power refused
      exact largestNumber_lt_of_log (beyond.trans_le (mul_log_le_log_descFactorial enough))
  · intro passed
    obtain ⟨logarithm, isLogarithm, passed⟩ := except_bind_eq_ok.mp passed
    rw [except_pure, Except.ok.injEq, decide_eq_false_iff_not] at passed
    refine le_of_log_factorial (lt_of_not_refused largest (gamma _ isLogarithm) ?_)
    split at passed
    · exact passed
    next notLess =>
      -- The larger one of the two bounds is the power, and it is within the limit.
      rw [lt_iff] at notLess passed ⊢
      rintro ⟨limitDefined, defined, beyond⟩
      refine passed ⟨limitDefined, power.defined, beyond.trans_le (not_lt.mp fun less => ?_)⟩
      exact notLess ⟨power.defined, defined, less⟩

end Checks

section Calls

/-- A double is within the tolerance of a whole number, so it stands for this number as an
argument. -/
def IsArgument (settings : Settings) (value : Float) (number : ℕ) : Prop :=
  ∀ function, wholeArgument settings function value = .ok number

variable {logarithms : Logarithms} {settings : Settings} {elements chosen result : Float}
  {total part : ℕ}

theorem checkedResult_eq (function : String) (exact : ℕ) :
    checkedResult function exact =
      if largestNumber < exact then .error (.tooLarge function) else .ok (ofInt exact) :=
  rfl

theorem checkedResult_eq_ok {function : String} {exact : ℕ} :
    checkedResult function exact = .ok result ↔ exact ≤ largestNumber ∧ result = ofInt exact := by
  rw [checkedResult_eq]
  split
  next large => exact iff_of_false nofun fun both => large.not_ge both.1
  next small => rw [Except.ok.injEq, eq_comm, iff_and_self]; exact fun _ => not_lt.mp small

theorem checkedResult_of_refused {refused : Bool} {function : String} {exact : ℕ}
    (sound : refused = true → largestNumber < exact) :
    (if refused = true then .error (.tooLarge function) else checkedResult function exact) =
      checkedResult function exact := by
  split
  next isRefused => rw [checkedResult_eq, if_pos (sound isRefused)]
  next => rfl

/-- A sound check by a computed estimate leaves only what the estimate fails with. -/
theorem checkedResult_of_estimate {estimate : Outcome Float} {refuses : Float → Bool}
    {function : String} {exact : ℕ}
    (sound : (estimate >>= fun logarithm => pure (refuses logarithm)) = .ok true →
      largestNumber < exact) :
    ((estimate >>= fun logarithm => pure (refuses logarithm)) >>= fun refused =>
        if refused = true then .error (.tooLarge function) else checkedResult function exact) =
      (estimate >>= fun _ => checkedResult function exact) := by
  cases estimate with
  | error fault => rfl
  | ok logarithm =>
      simp only [except_ok_bind, except_pure] at sound ⊢
      exact checkedResult_of_refused fun isRefused => sound (congrArg Except.ok isRefused)

variable (checked : settings.checkedCombinatorics = true) (enough : part ≤ total)
  (accurate : logarithms.AccurateAt total part) (isElements : IsArgument settings elements total)
  (isChosen : IsArgument settings chosen part)
include checked accurate isChosen

/-- The check of a factorial does not change what it is. -/
theorem factorial_of_checked :
    factorial logarithms settings chosen =
      (logarithms.logGamma (part + 1) >>= fun _ => checkedResult "factorial" (part !)) := by
  unfold factorial
  rw [isChosen, except_ok_bind, if_pos checked, risingProduct_one]
  exact checkedResult_of_estimate (soundCheck_factorial accurate).refuses

include enough isElements

/-- The check of a binomial coefficient does not change what it is. -/
theorem binomial_of_checked :
    binomial logarithms settings elements chosen =
      checkedResult "binomial" (total.choose part) := by
  have sound := (soundCheck_choice enough accurate).refuses
  unfold binomial
  rw [isElements, except_ok_bind, isChosen, except_ok_bind, if_neg (by omega)]
  dsimp only
  rw [if_pos checked, risingProduct_div enough]
  exact checkedResult_of_refused fun isRefused => sound (congrArg Except.ok isRefused)

/-- The check of a number of permutations does not change what it is. -/
theorem permutation_of_checked :
    permutation logarithms settings elements chosen =
      (logarithms.logGamma (part + 1) >>= fun _ =>
        checkedResult "permutation" (total.descFactorial part)) := by
  unfold permutation
  rw [isElements, except_ok_bind, isChosen, except_ok_bind, if_neg (by omega), if_pos checked,
    risingProduct_eq_descFactorial enough]
  exact checkedResult_of_estimate (soundCheck_arrangement enough accurate).refuses

end Calls

section Soundness

/-- A double that is rounded to a whole number within the tolerance stands for this number. -/
theorem isArgument_of_nearest {settings : Settings} {value : Float} {number : ℕ}
    (isNearest : nearestInt? value = some (number : ℤ))
    (near : ¬ settings.epsilon < (value - ofInt number).abs) :
    IsArgument settings value number := by
  have notNegative : ¬ (number : ℤ) < 0 := by omega
  intro function
  unfold wholeArgument
  rw [isNearest]
  dsimp only
  rw [decide_eq_false notNegative, decide_eq_false near, if_neg (by decide), Int.toNat_natCast]

/-- For any numbers of which one is at most the other, the checks refuse only counts beyond the
largest double and leave few steps, and a checked call returns the double nearest to the exact
count if that is at most the largest double and the logarithm of the gamma function has not
overflowed. -/
theorem overflow_checks_sound {logarithms : Logarithms} {total part : ℕ} (enough : part ≤ total)
    (accurate : logarithms.AccurateAt total part) :
    SoundCheck (.ok (logarithms.refusesChoice total (min part (total - part))))
        (total.choose part) (min part (total - part)) 1026 ∧
      SoundCheck (logarithms.refusesArrangement total part) (total.descFactorial part) part 171 ∧
      SoundCheck (logarithms.refusesFactorial part) (part !) part 171 ∧
      ∀ (settings : Settings) (elements chosen result : Float),
        settings.checkedCombinatorics = true → IsArgument settings elements total →
        IsArgument settings chosen part →
          (binomial logarithms settings elements chosen = .ok result ↔
            total.choose part ≤ largestNumber ∧ result = ofInt (total.choose part)) ∧
          (permutation logarithms settings elements chosen = .ok result ↔
            total.descFactorial part ≤ largestNumber ∧
              (∃ logarithm, logarithms.logGamma (part + 1) = .ok logarithm) ∧
              result = ofInt (total.descFactorial part)) ∧
          (factorial logarithms settings chosen = .ok result ↔
            part ! ≤ largestNumber ∧
              (∃ logarithm, logarithms.logGamma (part + 1) = .ok logarithm) ∧
              result = ofInt (part !)) := by
  refine ⟨soundCheck_choice enough accurate, soundCheck_arrangement enough accurate,
    soundCheck_factorial accurate, ?_⟩
  intro settings elements chosen result checked isElements isChosen
  refine ⟨?_, ?_, ?_⟩
  · rw [binomial_of_checked checked enough accurate isElements isChosen, checkedResult_eq_ok]
  · rw [permutation_of_checked checked enough accurate isElements isChosen, except_bind_eq_ok]
    simp only [checkedResult_eq_ok, exists_and_right]
    exact and_left_comm
  · rw [factorial_of_checked checked accurate isChosen, except_bind_eq_ok]
    simp only [checkedResult_eq_ok, exists_and_right]
    exact and_left_comm

/-- The logarithm of a number that is hardly below a power of two. -/
theorem mul_log_two_le {exponent number : ℕ} (positive : 0 < number)
    (close : 10 ^ 9 * 2 ^ exponent ≤ (10 ^ 9 + 1) * number) :
    exponent * Real.log 2 ≤ Real.log number + 1 / 10 ^ 9 := by
  have powerPositive : (0 : ℝ) < 2 ^ exponent := by positivity
  have positiveReal : (0 : ℝ) < number := Nat.cast_pos.mpr positive
  have closeReal : (10 : ℝ) ^ 9 * 2 ^ exponent ≤ (10 ^ 9 + 1) * number := by exact_mod_cast close
  have ratio : (2 : ℝ) ^ exponent / number - 1 ≤ 1 / 10 ^ 9 := by
    rw [sub_le_iff_le_add, div_le_iff₀ positiveReal]
    linarith
  have logRatio := Real.log_le_sub_one_of_pos (div_pos powerPositive positiveReal)
  rw [Real.log_div powerPositive.ne' positiveReal.ne', Real.log_pow] at logRatio
  linarith

theorem log_le_mul_log_two {exponent number : ℕ} (positive : 0 < number)
    (below : number ≤ 2 ^ exponent) : Real.log number ≤ exponent * Real.log 2 := by
  rw [← Real.log_pow]
  exact Real.log_le_log (Nat.cast_pos.mpr positive) (by exact_mod_cast below)

/-- The largest double is just below `2 ^ 1024`. -/
theorem le_log_largestNumber : 1024 * Real.log 2 ≤ Real.log largestNumber + 1 / 10 ^ 9 := by
  have close : 10 ^ 9 * 2 ^ 1024 ≤ (10 ^ 9 + 1) * largestNumber := by decide +kernel
  exact_mod_cast mul_log_two_le (by decide +kernel) close

theorem approximates_log_largestNumber {value : Float}
    (isValue : toRat? value = some (6243314768165359 / 2 ^ 43)) :
    Approximates value (Real.log largestNumber) := by
  have small := log_largestNumber_bounds.2
  have large := le_log_largestNumber
  have lower := Real.log_two_gt_d9
  have upper := Real.log_two_lt_d9
  refine .finite isValue (abs_le.mpr ⟨?_, ?_⟩) <;> push_cast <;> linarith

/-- The logarithms of two and of the largest double, to the accuracy of doubles. -/
def tabulatedLogarithms : Logarithms where
  log value := if value == 2.0 then 0.6931471805599453 else 709.782712893384
  logGamma _ := .ok 0.0

theorem accurateAt_tabulatedLogarithms : tabulatedLogarithms.AccurateAt 2 1 := by
  have lower := Real.log_two_gt_d9
  have upper := Real.log_two_lt_d9
  have logTwo {value : Float} (isValue : toRat? value = some (6243314768165359 / 2 ^ 53)) :
      Approximates value (Real.log 2) := by
    refine .finite isValue (abs_le.mpr ⟨?_, ?_⟩) <;> push_cast <;> linarith
  refine ⟨?_, fun _ => ?_, ?_, ?_⟩
  · exact approximates_log_largestNumber (by decide +kernel)
  · have isBound : toRat? (tabulatedLogarithms.choiceBound 2 1) =
        some (6243314768165359 / 2 ^ 53) := by decide +kernel
    simpa using logTwo isBound
  · have isBound : toRat? (tabulatedLogarithms.powerBound 2 1) =
        some (6243314768165359 / 2 ^ 53) := by decide +kernel
    simpa [one_add_one_eq_two] using logTwo isBound
  · rintro _ ⟨⟩
    have isZero : toRat? 0.0 = some 0 := isWhole_zero
    refine .finite isZero ?_
    norm_num [Real.Gamma_two]

theorem overflow_checks_sound_for_two :
    (1 ≤ 2 ∧ tabulatedLogarithms.AccurateAt 2 1) ∧
      SoundCheck (tabulatedLogarithms.refusesArrangement 2 1) 2 1 171 ∧
      binomial tabulatedLogarithms .standard 2.0 1.0 = .ok 2.0 := by
  have enough : 1 ≤ 2 := by norm_num
  obtain ⟨-, arrangement, -, calls⟩ := overflow_checks_sound enough accurateAt_tabulatedLogarithms
  have isElements : IsArgument .standard 2.0 2 :=
    isArgument_of_nearest (by decide +kernel) (by decide +kernel)
  have isChosen : IsArgument .standard 1.0 1 :=
    isArgument_of_nearest (by decide +kernel) (by decide +kernel)
  have returns := (calls .standard 2.0 1.0 2.0 rfl isElements isChosen).1
  exact ⟨⟨enough, accurateAt_tabulatedLogarithms⟩, arrangement,
    returns.mpr ⟨by decide +kernel, rfl⟩⟩

end Soundness

end Combinatorics

end ExprCalculus
