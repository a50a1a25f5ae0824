import ExprCalculus.Evaluation.Combinatorics
import ExprCalculus.Proofs.Doubles.Values
import Mathlib.Data.Nat.Choose.Basic
import Mathlib.Data.Nat.Factorial.Basic

/-!
# Counts as products of doubles

A product of doubles becomes infinite at the first factor that takes it beyond the largest
double and stays infinite, although a divisor that follows would bring it back.  So a number
of permutations overflows if it is itself too large, and a binomial coefficient if its largest
intermediate product is, the coefficient times the number of chosen elements.  Roundings only
matter for numbers very near to the largest double.
-/

namespace ExprCalculus

namespace Combinatorics

open Binary64

section Arrangements

variable {total : ℕ}

/-- A product of as many factors as elements are arranged, after some of them. -/
theorem withinRoundings_arrangements {steps : ℕ} (enough : steps ≤ total) (few : steps ≤ 2 ^ 40) :
    WithinRoundings (2 * steps) (arrangementsOfDoubles total steps)
      (total.descFactorial steps : ℕ) := by
  induction steps with
  | zero =>
      have isOne : toRat? 1.0 = some 1 := isWhole_one
      exact .finite isOne (by norm_num) (by norm_num)
  | succ steps ih =>
      have before := ih (by omega) (by omega)
      have factor : WithinRoundings 1 (ofInt (total - steps : ℕ)) (total - steps : ℕ) :=
        withinRoundings_ofInt (by omega)
      have count : 1 ≤ total.descFactorial steps :=
        Nat.pos_of_ne_zero (Nat.descFactorial_eq_zero_iff_lt.not.mpr (by omega))
      have product := before.mul factor (by exact_mod_cast count)
        (by exact_mod_cast (show 1 ≤ total - steps by omega)) (by omega) (by norm_num)
      have next : arrangementsOfDoubles total (steps + 1) =
          arrangementsOfDoubles total steps * ofInt (total - steps : ℕ) := Nat.fold_succ ..
      rw [next, Nat.descFactorial_succ, Nat.mul_comm (total - steps), Nat.cast_mul,
        show 2 * (steps + 1) = 1 + (2 * steps + 1) by ring]
      exact product

end Arrangements

section Choices

variable {roundings : ℕ} {value : Float} {count peak : ℚ}

/-- How far a product for a binomial coefficient has come: it is the coefficient up to some
roundings and no product before was too large, or the largest product before was too large. -/
inductive ChoiceState (roundings : ℕ) (value : Float) (count peak : ℚ) : Prop
  | within (isCount : WithinRoundings roundings value count) (isFinite : value.isInf = false)
      (small : peak ≤ largestNumber * slack ^ roundings)
  | overflowed (isInfinite : value = infinity) (large : largestNumber < peak * slack ^ roundings)

section Steps

variable {factor divisor : Float} {multiplier quotient : ℕ}
  (isFactor : WithinRoundings 1 factor multiplier) (isDivisor : WithinRoundings 1 divisor quotient)
  (divisorFinite : divisor.isInf = false) (multiplierPositive : 1 ≤ multiplier)
  (quotientPositive : 1 ≤ quotient)
include isFactor isDivisor divisorFinite multiplierPositive quotientPositive

/-- An infinite product stays infinite. -/
theorem infinity_mul_div : infinity * factor / divisor = infinity := by
  have multiplierLarge : (1 : ℚ) ≤ multiplier := by exact_mod_cast multiplierPositive
  have quotientLarge : (1 : ℚ) ≤ quotient := by exact_mod_cast quotientPositive
  obtain ⟨exact, isExact, below, -⟩ := isDivisor.exists_exact divisorFinite
  have product : infinity * factor = infinity := by
    cases isFactor with
    | finite isFactor below _ =>
        exact infinity_mul isFactor (half_le_of_below (by norm_num) multiplierLarge below)
    | infinite isInfinite _ => rw [isInfinite, infinity_mul_infinity]
  rw [product]
  exact infinity_div isExact (half_le_of_below (by norm_num) quotientLarge below)

/-- One more factor and one more divisor while no product was too large: the new product may
be the first one. -/
theorem choiceState_of_within (isCount : WithinRoundings roundings value count)
    (few : roundings ≤ 2 ^ 40) (countLarge : 1 ≤ count)
    (nextLarge : 1 ≤ count * multiplier / quotient) :
    ChoiceState (roundings + 4) (value * factor / divisor) (count * multiplier / quotient)
      (count * multiplier) := by
  have multiplierLarge : (1 : ℚ) ≤ multiplier := by exact_mod_cast multiplierPositive
  have quotientLarge : (1 : ℚ) ≤ quotient := by exact_mod_cast quotientPositive
  have peakLarge : 1 ≤ count * multiplier :=
    one_le_mul_of_one_le_of_one_le countLarge multiplierLarge
  have product := isCount.mul isFactor countLarge multiplierLarge (by omega) (by norm_num)
  have slackGrows := slack_pow_le (show 1 + (roundings + 1) ≤ roundings + 4 by omega)
  cases isInfinite : (value * factor).isInf with
  | true =>
      obtain ⟨productInfinite, beyond⟩ := product.eq_infinity isInfinite
      obtain ⟨exact, isExact, below, -⟩ := isDivisor.exists_exact divisorFinite
      rw [productInfinite]
      refine .overflowed (infinity_div isExact (half_le_of_below (by norm_num) quotientLarge below))
        (beyond.trans_le ?_)
      exact mul_le_mul_of_nonneg_left slackGrows (by linarith)
  | false =>
      have next := product.div isDivisor isInfinite divisorFinite quotientLarge nextLarge (by omega)
      rw [show 1 + (1 + (roundings + 1) + 1) = roundings + 4 by ring] at next
      cases nextInfinite : (value * factor / divisor).isInf with
      | true =>
          -- The quotient can only be infinite if the product was as large already.
          obtain ⟨isInfinity, beyond⟩ := next.eq_infinity nextInfinite
          refine .overflowed isInfinity (beyond.trans_le ?_)
          exact mul_le_mul_of_nonneg_right (div_le_self (by linarith) quotientLarge)
            (slack_pow_pos _).le
      | false =>
          obtain ⟨exact, isProduct, below, -⟩ := product.exists_exact isInfinite
          refine .within next nextInfinite (below.trans ?_)
          exact mul_le_mul (le_largestNumber isProduct) slackGrows (slack_pow_pos _).le
            (Nat.cast_nonneg _)

/-- One more factor and one more divisor. -/
theorem ChoiceState.step (state : ChoiceState roundings value count peak)
    (few : roundings ≤ 2 ^ 40) (countLarge : 1 ≤ count)
    (nextLarge : 1 ≤ count * multiplier / quotient) (growing : peak ≤ count * multiplier) :
    ChoiceState (roundings + 4) (value * factor / divisor) (count * multiplier / quotient)
      (count * multiplier) := by
  cases state with
  | within isCount isFinite small =>
      exact choiceState_of_within isFactor isDivisor divisorFinite multiplierPositive
        quotientPositive isCount few countLarge nextLarge
  | overflowed isInfinite large =>
      rw [isInfinite, infinity_mul_div isFactor isDivisor divisorFinite multiplierPositive
        quotientPositive]
      have positive : 0 ≤ count * multiplier :=
        mul_nonneg (zero_le_one.trans countLarge) (Nat.cast_nonneg _)
      refine .overflowed rfl (large.trans_le ?_)
      exact mul_le_mul growing (slack_pow_le (Nat.le_add_right _ _)) (slack_pow_pos _).le positive

end Steps

theorem choicesOfDoubles_succ (others steps : ℕ) :
    choicesOfDoubles (others + (steps + 1)) (steps + 1) =
      choicesOfDoubles (others + steps) steps * ofInt (others + steps + 1 : ℕ) /
        ofInt (steps + 1 : ℕ) := by
  have sameStart (chosen : ℕ) : ((others + chosen : ℕ) : ℤ) - chosen + 1 = others + 1 := by
    push_cast
    ring
  have sameFactor : ((others : ℤ) + 1 + steps) = (others + steps + 1 : ℕ) := by
    push_cast
    ring
  unfold choicesOfDoubles
  rw [Nat.fold_succ]
  simp only [sameStart]
  rw [sameFactor, Nat.cast_succ steps]

/-- A binomial coefficient as a product of doubles, after some of the factors. -/
theorem choiceState_choices (others : ℕ) {steps : ℕ} (few : steps ≤ 2 ^ 30) :
    ChoiceState (4 * steps) (choicesOfDoubles (others + steps) steps)
      ((others + steps).choose steps : ℕ) ((steps * (others + steps).choose steps : ℕ) : ℚ) := by
  induction steps with
  | zero =>
      have isOne : toRat? 1.0 = some 1 := isWhole_one
      refine .within (.finite isOne ?_ ?_) (not_isInf isOne) ?_
      · norm_num
      · norm_num
      · rw [Nat.zero_mul, Nat.cast_zero]
        exact mul_nonneg (Nat.cast_nonneg _) (slack_pow_pos _).le
  | succ steps ih =>
      -- The next factor makes the next coefficient times the divisor that follows.
      have absorbed := Nat.add_one_mul_choose_eq (others + steps) steps
      have countPositive : 0 < (others + steps).choose steps := Nat.choose_pos (by omega)
      have nextPositive : 0 < (others + steps + 1).choose (steps + 1) := Nat.choose_pos (by omega)
      have product : (((others + steps).choose steps : ℕ) : ℚ) * (others + steps + 1 : ℕ) =
          ((steps + 1) * (others + (steps + 1)).choose (steps + 1) : ℕ) := by
        rw [← Nat.cast_mul, Nat.mul_comm, absorbed, Nat.mul_comm, ← Nat.add_assoc]
      have divided : ((steps + 1) * (others + (steps + 1)).choose (steps + 1) : ℕ) /
          ((steps + 1 : ℕ) : ℚ) = ((others + (steps + 1)).choose (steps + 1) : ℕ) := by
        rw [Nat.cast_mul, mul_div_cancel_left₀]
        exact Nat.cast_ne_zero.mpr steps.succ_ne_zero
      have divisor : WithinRoundings 1 (ofInt (steps + 1 : ℕ)) (steps + 1 : ℕ) :=
        withinRoundings_ofInt steps.succ_pos
      have divisorFinite : (ofInt (steps + 1 : ℕ)).isInf = false := by
        have fewCast : ((steps + 1 : ℕ) : ℚ) ≤ 2 ^ 30 := by exact_mod_cast few
        have large : (2 : ℚ) ^ 31 ≤ largestNumber := by exact_mod_cast two_pow_le_largestNumber
        refine divisor.isInf_eq_false ?_
        rw [pow_one, slack]
        linarith
      have state := ChoiceState.step (withinRoundings_ofInt (others + steps).succ_pos) divisor
        divisorFinite (others + steps).succ_pos steps.succ_pos (ih (by omega)) (by omega)
        (by exact_mod_cast countPositive)
        (by rw [product, divided]; exact_mod_cast nextPositive) ?_
      · rw [product, divided, ← choicesOfDoubles_succ] at state
        exact state
      · rw [← Nat.cast_mul, Nat.cast_le, Nat.mul_comm]
        exact Nat.mul_le_mul_left _ (by omega)

end Choices

section Overflow

/-- A count differs from the largest double by more than one part in `10 ^ 11`. -/
def Separated (count : ℕ) : Prop :=
  (largestNumber : ℤ) < 10 ^ 11 * |(count : ℤ) - largestNumber|

instance (count : ℕ) : Decidable (Separated count) :=
  inferInstanceAs (Decidable (_ < _))

variable {count total part roundings : ℕ}

theorem slack_pow_le_of_few (few : roundings ≤ 5000) : slack ^ roundings ≤ 1 + 1 / 10 ^ 11 / 2 := by
  have fewCast : (roundings : ℚ) ≤ 5000 := by exact_mod_cast few
  refine (slack_pow_le_add (by omega)).trans ?_
  linarith

theorem Separated.mul_slack_le (separated : Separated count) (few : roundings ≤ 5000)
    (small : count ≤ largestNumber) : count * slack ^ roundings ≤ largestNumber := by
  have smallCast : (count : ℤ) - largestNumber ≤ 0 := by omega
  rw [Separated, abs_of_nonpos smallCast] at separated
  have gap : (largestNumber : ℚ) < 10 ^ 11 * -((count : ℚ) - largestNumber) := by
    exact_mod_cast separated
  have factor := mul_le_mul_of_nonneg_left (slack_pow_le_of_few few)
    (Nat.cast_nonneg count : (0 : ℚ) ≤ _)
  have largestNonnegative : (0 : ℚ) ≤ largestNumber := Nat.cast_nonneg _
  linarith

theorem Separated.mul_slack_lt (separated : Separated count) (few : roundings ≤ 5000)
    (large : largestNumber < count) : largestNumber * slack ^ roundings < count := by
  have largeCast : 0 ≤ (count : ℤ) - largestNumber := by omega
  rw [Separated, abs_of_nonneg largeCast] at separated
  have gap : (largestNumber : ℚ) < 10 ^ 11 * ((count : ℚ) - largestNumber) := by
    exact_mod_cast separated
  have factor := mul_le_mul_of_nonneg_left (slack_pow_le_of_few few)
    (Nat.cast_nonneg largestNumber : (0 : ℚ) ≤ _)
  linarith

/-- A number of permutations overflows as a product of doubles if it is too large. -/
theorem isInf_arrangements (enough : part ≤ total) (few : part ≤ 171)
    (separated : Separated (total.descFactorial part)) :
    (arrangementsOfDoubles total part).isInf = true ↔ largestNumber < total.descFactorial part := by
  have product := withinRoundings_arrangements enough (by omega)
  constructor
  · intro isInfinite
    by_contra small
    rw [product.isInf_eq_false (separated.mul_slack_le (by omega) (not_lt.mp small))] at isInfinite
    cases isInfinite
  · intro large
    exact product.isInf_eq_true (separated.mul_slack_lt (by omega) large)

/-- Very near to the largest double the roundings decide. -/
example : (arrangementsOfDoubles (7841222384935200 * 2 ^ 152) 5).isInf = false ∧
    largestNumber < (7841222384935200 * 2 ^ 152).descFactorial 5 := by
  decide +kernel

/-- A binomial coefficient overflows as a product of doubles if its product with the number of
chosen elements is too large. -/
theorem isInf_choices (enough : part ≤ total) (few : part ≤ 1026)
    (separated : Separated (part * total.choose part)) :
    (choicesOfDoubles total part).isInf = true ↔ largestNumber < part * total.choose part := by
  obtain ⟨others, rfl⟩ := Nat.exists_eq_add_of_le' enough
  cases choiceState_choices others (show part ≤ 2 ^ 30 by omega) with
  | within isCount isFinite small =>
      rw [isFinite]
      refine iff_of_false Bool.false_ne_true fun large => ?_
      have beyond := separated.mul_slack_lt (show 4 * part ≤ 5000 by omega) large
      exact small.not_gt beyond
  | overflowed isInfinite beyond =>
      rw [isInfinite, isInf_infinity]
      refine iff_of_true rfl (not_le.mp fun small => ?_)
      have within := separated.mul_slack_le (show 4 * part ≤ 5000 by omega) small
      exact within.not_gt beyond

end Overflow

end Combinatorics

end ExprCalculus
