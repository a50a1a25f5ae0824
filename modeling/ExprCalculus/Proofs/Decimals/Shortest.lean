import ExprCalculus.Decimal.Shortest
import ExprCalculus.Proofs.Decimals.Value
import Mathlib.Algebra.Order.Floor.Semifield

/-!
# Shortest decimals

The shortest decimal of a double lies in the interval of the double.  The search
checks this for every candidate, so what remains is that it finds one: with
seventeen digits the grid of decimals is so fine that one of the two neighbours of
the double lies in its interval.
-/

namespace ExprCalculus

namespace Decimal

open Binary64

variable {coefficient : ℕ} {exponent : ℤ}

namespace RoundingInterval

theorem denominator_positive (coefficient : ℕ) (exponent : ℤ) :
    0 < (ofMagnitude coefficient exponent).denominator :=
  Nat.pow_pos (by norm_num)

/-- The numerators of the interval count quarters of the unit of the double. -/
theorem quarters (coefficient count : ℕ) (exponent : ℤ) :
    ((count * (scaledByTwo 1 (exponent - 2)).1 : ℕ) : ℚ) /
        (ofMagnitude coefficient exponent).denominator = count / 4 * 2 ^ exponent := by
  have power := @zpow_eq_ratio 2 (by norm_num) (exponent - 2)
  have quarter : (2 : ℚ) ^ (exponent - 2) = 2 ^ exponent / 4 := by
    rw [zpow_sub₀ (by norm_num)]
    norm_num
  unfold ofMagnitude scaledByTwo
  dsimp only
  rw [Nat.one_mul, Nat.pow_eq, Nat.pow_eq, Nat.cast_mul, mul_div_assoc, ← power, Nat.cast_ofNat,
    quarter]
  ring

theorem value_eq (coefficient : ℕ) (exponent : ℤ) :
    ((ofMagnitude coefficient exponent).value : ℚ) /
        (ofMagnitude coefficient exponent).denominator = coefficient * 2 ^ exponent := by
  have counted := quarters coefficient (4 * coefficient) exponent
  refine counted.trans ?_
  push_cast
  ring

theorem upper_eq (coefficient : ℕ) (exponent : ℤ) :
    ((ofMagnitude coefficient exponent).upper : ℚ) /
        (ofMagnitude coefficient exponent).denominator = (coefficient + 1 / 2) * 2 ^ exponent := by
  have counted := quarters coefficient (4 * coefficient + 2) exponent
  refine counted.trans ?_
  push_cast
  ring

theorem lower_eq (positive : 0 < coefficient) (exponent : ℤ) :
    ((ofMagnitude coefficient exponent).lower : ℚ) /
        (ofMagnitude coefficient exponent).denominator =
      (coefficient - gapBelow coefficient exponent) * 2 ^ exponent := by
  have counted (below : ℕ) (small : below ≤ 4 * coefficient) :
      (((4 * coefficient - below) * (scaledByTwo 1 (exponent - 2)).1 : ℕ) : ℚ) /
        (ofMagnitude coefficient exponent).denominator =
      (coefficient - below / 4) * 2 ^ exponent := by
    rw [quarters, Nat.cast_sub small]
    push_cast
    ring
  unfold gapBelow
  by_cases boundary : coefficient = 2 ^ 52 ∧ exponent ≠ -1074
  · have lower : (ofMagnitude coefficient exponent).lower =
        (4 * coefficient - 1) * (scaledByTwo 1 (exponent - 2)).1 := by
      unfold ofMagnitude
      dsimp only
      rw [Nat.pow_eq, if_pos boundary]
    rw [lower, counted 1 (by omega), if_pos boundary]
    norm_num
  · have lower : (ofMagnitude coefficient exponent).lower =
        (4 * coefficient - 2) * (scaledByTwo 1 (exponent - 2)).1 := by
      unfold ofMagnitude
      dsimp only
      rw [Nat.pow_eq, if_neg boundary]
    rw [lower, counted 2 (by omega), if_neg boundary]
    norm_num

/-- The test whether a decimal lies in the interval is right. -/
theorem holds_iff (positive : 0 < coefficient) (decimal : Decimal) :
    (ofMagnitude coefficient exponent).holds decimal = true ↔
      Near coefficient exponent decimal.value := by
  have denominator : (0 : ℚ) < (ofMagnitude coefficient exponent).denominator :=
    Nat.cast_pos.mpr (denominator_positive coefficient exponent)
  have ratio : (0 : ℚ) < decimal.toRatio.2 := Nat.cast_pos.mpr (toRatio_positive decimal)
  have lowerLe : (ofMagnitude coefficient exponent).lower * decimal.toRatio.2 ≤
      decimal.toRatio.1 * (ofMagnitude coefficient exponent).denominator ↔
      (coefficient - gapBelow coefficient exponent) * 2 ^ exponent ≤ decimal.value := by
    rw [← lower_eq positive, ← toRatio_eq_value, div_le_div_iff₀ denominator ratio]
    norm_cast
  have lowerLt : (ofMagnitude coefficient exponent).lower * decimal.toRatio.2 <
      decimal.toRatio.1 * (ofMagnitude coefficient exponent).denominator ↔
      (coefficient - gapBelow coefficient exponent) * 2 ^ exponent < decimal.value := by
    rw [← lower_eq positive, ← toRatio_eq_value, div_lt_div_iff₀ denominator ratio]
    norm_cast
  have upperLe : decimal.toRatio.1 * (ofMagnitude coefficient exponent).denominator ≤
      (ofMagnitude coefficient exponent).upper * decimal.toRatio.2 ↔
      decimal.value ≤ (coefficient + 1 / 2) * 2 ^ exponent := by
    rw [← upper_eq, ← toRatio_eq_value, div_le_div_iff₀ ratio denominator]
    norm_cast
  have upperLt : decimal.toRatio.1 * (ofMagnitude coefficient exponent).denominator <
      (ofMagnitude coefficient exponent).upper * decimal.toRatio.2 ↔
      decimal.value < (coefficient + 1 / 2) * 2 ^ exponent := by
    rw [← upper_eq, ← toRatio_eq_value, div_lt_div_iff₀ ratio denominator]
    norm_cast
  have closed : (ofMagnitude coefficient exponent).closed = true ↔ coefficient % 2 = 0 :=
    decide_eq_true_iff
  unfold holds
  dsimp only
  by_cases even : coefficient % 2 = 0
  · rw [if_pos (closed.mpr even), Bool.and_eq_true, decide_eq_true_eq, decide_eq_true_eq, lowerLe,
      upperLe]
    exact ⟨fun ⟨lower, upper⟩ => ⟨lower, upper, fun odd => by omega⟩,
      fun near => ⟨near.lower, near.upper⟩⟩
  · rw [if_neg (mt closed.mp even), Bool.and_eq_true, decide_eq_true_eq, decide_eq_true_eq, lowerLt,
      upperLt]
    exact ⟨fun ⟨lower, upper⟩ => ⟨lower.le, upper.le, fun _ => ⟨lower, upper⟩⟩,
      fun near => near.tie (by omega)⟩

theorem roundRatio_cases (numerator denominator : ℕ) :
    roundRatio numerator denominator = numerator / denominator ∨
      roundRatio numerator denominator = numerator / denominator + 1 := by
  unfold roundRatio
  dsimp only
  split
  · exact .inl rfl
  split
  · exact .inr rfl
  · omega

variable {interval : RoundingInterval} {decimal : Decimal}

/-- A neighbour that is found lies in the interval. -/
theorem holds_of_neighbour? (found : interval.neighbour? exponent = some decimal) :
    interval.holds decimal = true := by
  unfold neighbour? at found
  dsimp only at found
  split at found
  next below above =>
    cases found
    rcases roundRatio_cases (interval.value * Nat.pow 10 (-exponent).toNat)
        (interval.denominator * Nat.pow 10 exponent.toNat) with isBelow | isAbove
    · rw [isBelow]
      exact below
    · rw [isAbove]
      exact above
  next below above =>
    cases found
    exact below
  next below above =>
    cases found
    exact above
  next => cases found

/-- A neighbour is found if one of the two lies in the interval. -/
theorem neighbour?_isSome {quotient : ℕ}
    (isQuotient : interval.value * Nat.pow 10 (-exponent).toNat /
      (interval.denominator * Nat.pow 10 exponent.toNat) = quotient)
    (holds : interval.holds ⟨quotient, exponent⟩ = true ∨
      interval.holds ⟨quotient + 1, exponent⟩ = true) :
    (interval.neighbour? exponent).isSome = true := by
  unfold neighbour?
  dsimp only
  rw [isQuotient]
  split
  · rfl
  · rfl
  · rfl
  next below above =>
    rw [below, above] at holds
    rcases holds with holds | holds <;> cases holds

end RoundingInterval

section Search

/-- A number closer to a double than the ends of the interval lies in the interval. -/
theorem near_of_close {number : ℚ}
    (lower : coefficient * 2 ^ exponent - gapBelow coefficient exponent * 2 ^ exponent < number)
    (upper : number < coefficient * 2 ^ exponent + 1 / 2 * 2 ^ exponent) :
    Near coefficient exponent number := by
  rw [← sub_mul] at lower
  rw [← add_mul] at upper
  exact ⟨lower.le, upper.le, fun _ => ⟨lower, upper⟩⟩

/-- On a grid that is finer than the double has digits, one of the two neighbours of
the double lies in its interval. -/
theorem near_below_or_above (magnitude : IsMagnitude coefficient exponent) {step : ℚ} {count : ℕ}
    (fine : 10 ^ 16 * step ≤ coefficient * 2 ^ exponent)
    (below : count * step ≤ coefficient * 2 ^ exponent)
    (above : coefficient * 2 ^ exponent < (count + 1) * step) :
    Near coefficient exponent (count * step) ∨ Near coefficient exponent ((count + 1) * step) := by
  have unit := two_zpow_pos exponent
  obtain ⟨gap, -⟩ := gapBelow_bounds coefficient exponent
  have gapPositive := mul_pos gap unit
  have next : ((count : ℚ) + 1) * step = count * step + step := by ring
  rw [next] at above ⊢
  by_cases boundary : coefficient = 2 ^ 52 ∧ exponent ≠ -1074
  · right
    have power : (coefficient : ℚ) * 2 ^ exponent = 2 ^ 52 * 2 ^ exponent := by
      rw [boundary.1]
      norm_num
    apply near_of_close <;> linarith
  · have half : gapBelow coefficient exponent = 1 / 2 := if_neg boundary
    have small : (coefficient : ℚ) * 2 ^ exponent < 2 ^ 53 * 2 ^ exponent := by
      refine mul_lt_mul_of_pos_right ?_ unit
      exact_mod_cast magnitude.small
    by_cases close : coefficient * 2 ^ exponent - count * step < 1 / 2 * (2 : ℚ) ^ exponent
    · left
      apply near_of_close
      · rw [half]
        linarith
      · linarith
    · right
      apply near_of_close <;> linarith

theorem exists_neighbour (magnitude : IsMagnitude coefficient exponent) {place : ℤ}
    (fine : 10 ^ 16 * (10 : ℚ) ^ place ≤ coefficient * 2 ^ exponent) :
    ((RoundingInterval.ofMagnitude coefficient exponent).neighbour? place).isSome = true := by
  have step := ten_zpow_pos place
  have ratio : (((RoundingInterval.ofMagnitude coefficient exponent).value *
      Nat.pow 10 (-place).toNat : ℕ) : ℚ) /
      (((RoundingInterval.ofMagnitude coefficient exponent).denominator *
        Nat.pow 10 place.toNat : ℕ) : ℚ) = coefficient * 2 ^ exponent / 10 ^ place := by
    rw [ratio_div_zpow (by norm_num), RoundingInterval.value_eq]
    norm_num
  have divisorPositive : 0 < (RoundingInterval.ofMagnitude coefficient exponent).denominator *
      Nat.pow 10 place.toNat :=
    Nat.mul_pos (RoundingInterval.denominator_positive _ _) (Nat.pow_pos (by norm_num))
  obtain ⟨quotient, isQuotient⟩ : ∃ quotient,
      (RoundingInterval.ofMagnitude coefficient exponent).value * Nat.pow 10 (-place).toNat /
        ((RoundingInterval.ofMagnitude coefficient exponent).denominator *
          Nat.pow 10 place.toNat) = quotient := ⟨_, rfl⟩
  have floor := @Nat.floor_div_eq_div ℚ _ _ _ _
    ((RoundingInterval.ofMagnitude coefficient exponent).value * Nat.pow 10 (-place).toNat)
    ((RoundingInterval.ofMagnitude coefficient exponent).denominator * Nat.pow 10 place.toNat)
  rw [ratio, isQuotient] at floor
  have nonnegative : (0 : ℚ) ≤ coefficient * 2 ^ exponent / 10 ^ place :=
    div_nonneg (mul_nonneg (Nat.cast_nonneg _) (two_zpow_pos _).le) step.le
  have below := Nat.floor_le nonnegative
  have above := Nat.lt_floor_add_one ((coefficient : ℚ) * 2 ^ exponent / 10 ^ place)
  rw [floor] at below above
  rw [le_div_iff₀ step] at below
  rw [div_lt_iff₀ step] at above
  refine RoundingInterval.neighbour?_isSome isQuotient ?_
  rw [RoundingInterval.holds_iff magnitude.positive, RoundingInterval.holds_iff magnitude.positive]
  unfold value
  dsimp only
  push_cast
  exact near_below_or_above magnitude fine below above

/-- The shortest decimal of a double lies in the interval of the double. -/
theorem near_shortest {double : Float}
    (isMagnitude : magnitude? double = some (coefficient, exponent)) (positive : 0 < coefficient) :
    Near coefficient exponent (shortest double).value := by
  have magnitude : IsMagnitude coefficient exponent :=
    (magnitude?_cases isMagnitude).1.resolve_left fun zero => by omega
  have least := magnitude.least
  have greatest := magnitude.greatest
  have denominatorPositive := RoundingInterval.denominator_positive coefficient exponent
  have ratio := RoundingInterval.value_eq coefficient exponent
  have self := near_self coefficient exponent
  have valuePositive := self.positive magnitude
  have valuePositive' : 0 < (RoundingInterval.ofMagnitude coefficient exponent).value := by
    rcases Nat.eq_zero_or_pos (RoundingInterval.ofMagnitude coefficient exponent).value with
      zero | some
    · rw [zero, Nat.cast_zero, zero_div] at ratio
      exact absurd ratio (ne_of_lt valuePositive)
    · exact some
  have logLower : exponent - 1 ≤ Int.log 2 ((coefficient : ℚ) * 2 ^ exponent) :=
    (Int.zpow_le_iff_le_log (by norm_num) valuePositive).mp (self.half_le magnitude)
  have logUpper : Int.log 2 ((coefficient : ℚ) * 2 ^ exponent) < exponent + 53 :=
    (Int.lt_zpow_iff_log_lt (by norm_num) valuePositive).mp (self.lt_full magnitude)
  obtain ⟨leading, isLeading⟩ : ∃ leading,
      order (RoundingInterval.ofMagnitude coefficient exponent).value
        (RoundingInterval.ofMagnitude coefficient exponent).denominator = leading := ⟨_, rfl⟩
  have reached : (10 : ℚ) ^ leading ≤ coefficient * 2 ^ exponent := by
    rw [← isLeading, ← ratio]
    refine zpow_order_le valuePositive' denominatorPositive ?_ ?_
    · rw [ratio]
      omega
    · rw [ratio]
      omega
  have fine : 10 ^ 16 * (10 : ℚ) ^ (leading - 16) ≤ coefficient * 2 ^ exponent := by
    rw [← zpow_natCast, ← zpow_add₀ (by norm_num)]
    have whole : ((16 : ℕ) : ℤ) + (leading - 16) = leading := by omega
    rw [whole]
    exact reached
  have some : ((List.range 17).findSome? fun (digits : Nat) =>
      (RoundingInterval.ofMagnitude coefficient exponent).neighbour? (leading - digits)).isSome := by
    rw [List.findSome?_isSome_iff]
    exact ⟨16, by simp, exists_neighbour magnitude fine⟩
  obtain ⟨decimal, found⟩ := Option.isSome_iff_exists.mp some
  obtain ⟨digits, -, isNeighbour⟩ := List.exists_of_findSome?_eq_some found
  have holds := RoundingInterval.holds_of_neighbour? isNeighbour
  rw [RoundingInterval.holds_iff positive] at holds
  unfold shortest
  rw [isMagnitude]
  dsimp only
  rw [if_neg (by omega), isLeading, found, Option.getD_some, value_normalize]
  exact holds

end Search

end Decimal

end ExprCalculus
