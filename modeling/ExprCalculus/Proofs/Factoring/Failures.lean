import ExprCalculus.Polynomial.Factorization
import ExprCalculus.Proofs.Doubles.Finite
import ExprCalculus.Proofs.Outcomes
import ExprCalculus.Proofs.Polynomial.Approximation
import ExprCalculus.Proofs.Polynomial.Monomials

/-!
# Where monomials of doubles cannot be handled

Doubles that are infinite or undefined have no exact value, so they are not rounded to
whole numbers or to fractions, and a whole number beyond the largest double is not written
as an exponent.  For each step that reads monomials off an expression, takes their common
factor out or writes them down, this file says exactly when it fails.
-/

namespace ExprCalculus

namespace Doubles

section Conversions

variable {value : Float}

theorem fails_exactly : Fails (exactly value) ↔ value.isFinite = false := by
  rw [← Binary64.toRat?_eq_none]
  unfold exactly
  split <;> simp [*]

theorem exactly_eq_ok {number : ℚ} :
    exactly value = .ok number ↔ Binary64.toRat? value = some number := by
  unfold exactly
  split <;> simp [*]

theorem fails_wholeNear : Fails (wholeNear value) ↔ value.isFinite = false := by
  unfold wholeNear
  exact (fails_bind_of_returns fun _ _ => not_fails_ok _).trans fails_exactly

theorem fails_whole? : Fails (whole? value) ↔ value.isFinite = false := by
  unfold whole?
  exact (fails_bind_of_returns fun _ _ => not_fails_ok _).trans fails_wholeNear

theorem roundHalfEven_eq_zero {number : ℚ} (small : |number| ≤ 1 / 2) :
    Binary64.roundHalfEven number = 0 := by
  have rounds : Binary64.RoundsTo ((number.num.natAbs : ℚ) / number.den) 0 := by
    rw [Binary64.natAbs_num_div_den]
    have nonnegative := abs_nonneg number
    exact ⟨by norm_num; linarith, by norm_num; linarith, fun odd => by omega⟩
  unfold Binary64.roundHalfEven
  rw [Binary64.roundRatio_eq number.den_pos rounds]
  split <;> rfl

/-- The doubles that count as zero are the ones nearer to zero than a billionth. -/
theorem whole?_eq_zero_iff : whole? value = .ok (some 0) ↔ value.abs < 1e-9 := by
  constructor
  · intro counted
    obtain ⟨⟨number, distance⟩, near, counts⟩ := except_bind_eq_ok.mp counted
    obtain ⟨exact, -, same⟩ := except_bind_eq_ok.mp near
    obtain ⟨rfl, rfl⟩ := Prod.mk.inj (Except.ok.inj same)
    have counts := Except.ok.inj counts
    split at counts
    next isNear =>
      rw [Option.some.inj counts, Binary64.sub_zero_eq] at isNear
      exact isNear
    next => cases counts
  · intro small
    have finite : value.isFinite = true := by
      rw [← Bool.not_eq_false]
      exact fun infinite => Binary64.not_abs_lt infinite _ small
    obtain ⟨number, isNumber⟩ := Binary64.isFinite_iff.mp finite
    have rounded : Binary64.roundHalfEven number = 0 := by
      have half : Binary64.toRat? 0.5 = some (1 / 2) := by decide +kernel
      have tiny : (1e-9 : Float) < 0.5 := by decide +kernel
      have belowHalf : value.abs < 0.5 := by
        rw [Binary64.lt_iff] at small tiny ⊢
        exact ⟨small.1, tiny.2.1, small.2.2.trans tiny.2.2⟩
      exact roundHalfEven_eq_zero
        ((Binary64.lt_iff_of_toRat (Binary64.toRat?_abs isNumber) half).mp belowHalf).le
    have near : wholeNear value = .ok (0, value.abs) := by
      unfold wholeNear
      rw [exactly_eq_ok.mpr isNumber, except_ok_bind]
      dsimp only
      rw [rounded, Binary64.sub_zero_eq]
      rfl
    unfold whole?
    rw [near, except_ok_bind]
    dsimp only
    rw [if_pos small]
    rfl

theorem fails_wholeRoot? : Fails (wholeRoot? value) ↔ value.isFinite = false := by
  rw [← Binary64.isFinite_sqrt_abs]
  exact (fails_bind_of_returns fun _ _ => not_fails_ok _).trans fails_wholeNear

theorem fails_exponent? : Fails (exponent? value) ↔ value = Binary64.infinity := by
  rw [Binary64.eq_infinity_iff]
  unfold exponent?
  split
  next large =>
    rw [and_iff_right large]
    exact (fails_bind_of_returns fun _ _ => not_fails_ok _).trans fails_exactly
  next small => exact iff_of_false (not_fails_ok _) fun infinite => small infinite.1

/-- The fraction that approximates a double is rounded to a double. -/
theorem exists_nearestTo {number : ℚ} (isValue : Binary64.toRat? value = some number) :
    ∃ rounded, nearestTo (Approximation.nearest 100 number) = .ok rounded := by
  obtain ⟨rounded, isRounded⟩ :
      ∃ rounded, Binary64.ofRat? (Approximation.nearest 100 number) = some rounded := by
    by_cases whole : number.den = 1
    · have unchanged : Approximation.nearest 100 number = number := by
        unfold Approximation.nearest
        exact if_pos (by omega)
      rw [unchanged]
      exact Binary64.exists_ofRat?_of_toRat? isValue
    · have near := Approximation.abs_nearest_sub_le (show 0 < 100 by norm_num) number
      have small := Binary64.abs_lt_of_den_ne_one isValue whole
      apply Binary64.exists_ofRat?
      have close := abs_sub_abs_le_abs_sub (Approximation.nearest 100 number) number
      calc |Approximation.nearest 100 number| ≤ 2 ^ 53 + 1 := by linarith
        _ ≤ 2 ^ (54 : ℤ) := by norm_num
        _ < 2 ^ (1000 : ℤ) := zpow_lt_zpow_right₀ (by norm_num) (by norm_num)
  unfold nearestTo
  rw [isRounded]
  exact ⟨rounded, rfl⟩

theorem fails_fraction? : Fails (fraction? value) ↔ value.isFinite = false := by
  refine (fails_bind_of_returns fun number isNumber => ?_).trans fails_exactly
  obtain ⟨rounded, isRounded⟩ := exists_nearestTo (exactly_eq_ok.mp isNumber)
  dsimp only
  rw [isRounded]
  exact not_fails_ok _

variable (settings : Settings)

theorem fails_snap : Fails ((factoring settings).snap value) ↔ value.isFinite = false := by
  refine (fails_bind_of_returns fun number? _ => ?_).trans fails_whole?
  cases number? <;> exact not_fails_ok _

theorem fails_quotient {dividend divisor : Float} :
    Fails ((factoring settings).quotient dividend divisor) ↔ (divisor == 0.0) = true := by
  unfold factoring
  dsimp only
  split <;> simp [*]

theorem fails_root : Fails ((factoring settings).root value) ↔ value < 0.0 := by
  unfold factoring
  dsimp only
  split <;> simp [*]

theorem fails_power {base : Float} (finite : base.isFinite = true) (exponent : ℕ) :
    Fails ((factoring settings).power base exponent) ↔
      (Float.pow base (Binary64.ofInt exponent)).isInf = true := by
  unfold factoring
  dsimp only
  split <;> simp_all

end Conversions

section Reading

variable (settings : Settings)

/-- Among the factors of an expression is a variable with an infinite exponent. -/
inductive InfinitePower : Expr Float → Prop
  | power (name : String) :
      InfinitePower (.binary .power (.var name) (.const Binary64.infinity))
  | negation {operand : Expr Float} (found : InfinitePower operand) :
      InfinitePower (.unary .negate operand)
  | left {left right : Expr Float} (found : InfinitePower left) :
      InfinitePower (.binary .multiply left right)
  | right {left right : Expr Float} (found : InfinitePower right) :
      InfinitePower (.binary .multiply left right)

theorem fails_ofFactor? (expression : Expr Float) :
    Fails (Monomial.ofFactor? (factoring settings) expression) ↔ InfinitePower expression := by
  fun_induction Monomial.ofFactor? (factoring settings) expression with
  | case1 value => exact iff_of_false (not_fails_ok _) (by rintro ⟨⟩)
  | case2 name => exact iff_of_false (not_fails_ok _) (by rintro ⟨⟩)
  | case3 operand ih =>
      refine (fails_bind_of_returns fun _ _ => not_fails_ok _).trans (ih.trans ⟨.negation, ?_⟩)
      rintro (_ | found)
      exact found
  | case4 name value =>
      refine (fails_bind_of_returns fun _ _ => not_fails_ok _).trans (fails_exponent?.trans ?_)
      constructor
      · rintro rfl
        exact .power name
      · rintro ⟨⟩
        rfl
  | case5 left right leftIH rightIH =>
      have inOne : Fails (Monomial.ofFactor? (factoring settings) left) ∨
          Fails (Monomial.ofFactor? (factoring settings) right) ↔
            InfinitePower (.binary .multiply left right) := by
        rw [leftIH, rightIH]
        constructor
        · rintro (found | found)
          · exact .left found
          · exact .right found
        · intro found
          cases found with
          | left found => exact .inl found
          | right found => exact .inr found
      exact (fails_bind_iff_or fun _ _ =>
        fails_bind_of_returns fun _ _ => not_fails_ok _).trans inOne
  | case6 expression notConst notVar notNegation notPower notProduct =>
      refine iff_of_false (not_fails_ok _) fun found => ?_
      cases found with
      | power name => exact notPower _ _ rfl
      | negation => exact notNegation _ rfl
      | left | right => exact notProduct _ _ rfl

/-- A term is a constant or a multiple of a monomial. -/
def IsMonomial (term : Term Float) : Prop :=
  ∀ base ∈ term.base?, ∃ monomial,
    Monomial.ofFactor? (factoring settings) base = .ok (some monomial)

def HasInfinitePower (term : Term Float) : Prop :=
  ∃ base ∈ term.base?, InfinitePower base

theorem fails_ofTerms? (terms : List (Term Float)) :
    Fails (Monomial.ofTerms? (factoring settings) terms) ↔
      Reaches (IsMonomial settings) HasInfinitePower terms := by
  fun_induction Monomial.ofTerms? (factoring settings) terms with
  | case1 => simp
  | case2 coefficient rest ih =>
      rw [reaches_cons]
      refine (fails_bind_of_returns fun _ _ => not_fails_ok _).trans (ih.trans ?_)
      simp [IsMonomial, HasInfinitePower]
  | case3 coefficient base rest ih =>
      rw [reaches_cons]
      have stops : HasInfinitePower ⟨coefficient, some base⟩ ↔
          Fails (Monomial.ofFactor? (factoring settings) base) := by
        simp [HasInfinitePower, fails_ofFactor?]
      have passes : IsMonomial settings ⟨coefficient, some base⟩ ↔
          ∃ monomial, Monomial.ofFactor? (factoring settings) base = .ok (some monomial) := by
        simp [IsMonomial]
      rw [stops, passes, ← ih]
      exact fails_bind_option (not_fails_ok _) fun _ =>
        fails_bind_of_returns fun _ _ => not_fails_ok _

end Reading

section Writing

variable (settings : Settings)

/-- A whole number beyond the largest double, which cannot be written as an exponent. -/
def BeyondDoubles (power : ℕ) : Prop :=
  Binary64.ofRat? (power : ℚ) = none

theorem not_beyondDoubles_zero : ¬ BeyondDoubles 0 := by
  unfold BeyondDoubles
  decide +kernel

theorem not_beyondDoubles_one : ¬ BeyondDoubles 1 := by
  unfold BeyondDoubles
  decide +kernel

theorem fails_ofRat (number : ℚ) :
    Fails ((factoring settings).ofRat number) ↔ Binary64.ofRat? number = none := by
  change Fails (nearestTo number) ↔ _
  unfold nearestTo
  split <;> simp [*]

theorem fails_powerExpr (name : String) (power : ℕ) :
    Fails (Monomial.powerExpr (factoring settings) name power) ↔ BeyondDoubles power := by
  unfold Monomial.powerExpr
  split
  next isOne =>
    subst isOne
    exact iff_of_false (not_fails_ok _) not_beyondDoubles_one
  · exact (fails_bind_of_returns fun _ _ => not_fails_ok _).trans (fails_ofRat settings power)

theorem fails_powerExprs (powers : Powers) :
    Fails (Monomial.powerExprs (factoring settings) powers) ↔
      ∃ entry ∈ powers, BeyondDoubles entry.2 := by
  unfold Monomial.powerExprs
  rw [fails_mapM]
  simp only [fails_powerExpr]

theorem fails_powersExpr? (powers : Powers) :
    Fails (Monomial.powersExpr? (factoring settings) powers) ↔
      ∃ entry ∈ powers, BeyondDoubles entry.2 := by
  refine (fails_bind_of_returns fun factors _ => ?_).trans (fails_powerExprs settings powers)
  cases factors <;> exact not_fails_ok _

/-- A monomial has an infinite or undefined coefficient or a power beyond the doubles. -/
def Unwritable (monomial : Monomial Float) : Prop :=
  monomial.coefficient.isFinite = false ∨ ∃ entry ∈ monomial.powers, BeyondDoubles entry.2

theorem fails_sumExpr (monomials : List (Monomial Float)) :
    Fails (Monomial.sumExpr (factoring settings) monomials) ↔
      ∃ monomial ∈ monomials, Unwritable monomial := by
  refine (fails_bind_of_returns fun _ _ => not_fails_ok _).trans ?_
  rw [fails_mapM]
  refine exists_congr fun monomial => and_congr_right fun _ => ?_
  refine (fails_bind_iff_or fun _ _ => fails_bind_of_returns fun _ _ => not_fails_ok _).trans ?_
  rw [fails_snap, fails_powersExpr?]
  rfl

/-- A polynomial has a coefficient that is not dropped as a zero and is infinite or undefined
or stands at a power beyond the doubles. -/
def UnwritablePolynomial (coefficients : List Float) : Prop :=
  ∃ entry ∈ coefficients.zipIdx, settings.apart entry.1 (Binary64.ofInt 0) = true ∧
    (entry.1.isFinite = false ∨ BeyondDoubles entry.2)

theorem fails_polynomialExpr (name : String) (coefficients : List Float) :
    Fails (Monomial.polynomialExpr (factoring settings) name coefficients) ↔
      UnwritablePolynomial settings coefficients := by
  refine (fails_bind_of_returns fun _ _ => not_fails_ok _).trans ?_
  rw [fails_mapM]
  refine exists_congr fun entry => ?_
  rw [List.mem_filter, List.mem_reverse, and_assoc]
  refine and_congr_right fun _ => and_congr_right fun _ => ?_
  obtain ⟨coefficient, power⟩ := entry
  dsimp only
  rw [or_comm]
  split
  next isZero =>
    subst isZero
    rw [or_iff_right not_beyondDoubles_zero, ← fails_snap settings]
    exact fails_bind_of_returns fun _ _ => not_fails_ok _
  next =>
    rw [← fails_snap settings, ← fails_powerExpr settings name]
    refine (fails_bind_iff_or fun _ _ => fails_bind_of_returns fun _ _ => not_fails_ok _).trans ?_
    rw [fails_map]

end Writing

section CommonFactors

variable (settings : Settings)

def CountsAsWhole (value : Float) : Prop :=
  ∃ number, whole? value = .ok (some number)

theorem fails_wholeCoefficients? (monomials : List (Monomial Float)) :
    Fails (Monomial.wholeCoefficients? (factoring settings) monomials) ↔
      Reaches (fun monomial => CountsAsWhole monomial.coefficient)
        (fun monomial => monomial.coefficient.isFinite = false) monomials := by
  fun_induction Monomial.wholeCoefficients? (factoring settings) monomials with
  | case1 => simp
  | case2 monomial rest ih =>
      rw [reaches_cons, ← ih, ← fails_whole?]
      exact fails_bind_option (not_fails_ok _) fun _ =>
        fails_bind_of_returns fun _ _ => not_fails_ok _

/-- The coefficients that count as whole, each with the whole number it counts as. -/
theorem wholeCoefficients?_eq_some {monomials : List (Monomial Float)} {numbers : List ℤ} :
    Monomial.wholeCoefficients? (factoring settings) monomials = .ok (some numbers) ↔
      List.Forall₂ (fun monomial number => whole? monomial.coefficient = .ok (some number))
        monomials numbers := by
  fun_induction Monomial.wholeCoefficients? (factoring settings) monomials generalizing numbers with
  | case1 => simp [eq_comm]
  | case2 monomial rest ih =>
      rw [List.forall₂_cons_left_iff, except_bind_eq_ok]
      constructor
      · rintro ⟨_ | number, isNumber, counted⟩
        · cases counted
        · obtain ⟨others?, areOthers, same⟩ := except_bind_eq_ok.mp counted
          obtain ⟨others, rfl, rfl⟩ := Option.map_eq_some_iff.mp (Except.ok.inj same)
          exact ⟨number, others, isNumber, ih.mp areOthers, rfl⟩
      · rintro ⟨number, others, isNumber, areOthers, rfl⟩
        exact ⟨some number, isNumber, except_bind_eq_ok.mpr ⟨some others, ih.mpr areOthers, rfl⟩⟩

theorem foldl_gcd_eq_zero {numbers : List ℕ} {start : ℕ} :
    numbers.foldl Nat.gcd start = 0 ↔ start = 0 ∧ ∀ number ∈ numbers, number = 0 := by
  induction numbers generalizing start with
  | nil => simp
  | cons number numbers ih =>
      rw [List.foldl_cons, ih, Nat.gcd_eq_zero_iff, List.forall_mem_cons, and_assoc]

def Vanish (monomials : List (Monomial Float)) : Prop :=
  ∀ monomial ∈ monomials, monomial.coefficient.abs < 1e-9

/-- The common factor of some monomials cannot be taken out: after coefficients that count as
whole comes one that is infinite or undefined, or all coefficients count as zero, or a shared
power is beyond the doubles. -/
inductive CommonFails (monomials : List (Monomial Float)) : Prop
  | coefficient (reached : Reaches (fun monomial => CountsAsWhole monomial.coefficient)
      (fun monomial => monomial.coefficient.isFinite = false) monomials)
  | content (vanish : Vanish monomials)
      (divides : settings.apart (Binary64.ofInt 0) (Binary64.ofInt 1) = true ∨
        Monomial.commonPowers monomials ≠ [])
  | power {entry : String × ℕ} (shared : entry ∈ Monomial.commonPowers monomials)
      (beyond : BeyondDoubles entry.2)

theorem vanish_iff {monomials : List (Monomial Float)} : Vanish monomials ↔
    Monomial.wholeCoefficients? (factoring settings) monomials =
      .ok (some (monomials.map fun _ => 0)) := by
  rw [wholeCoefficients?_eq_some, List.forall₂_map_right_iff, List.forall₂_same]
  simp only [whole?_eq_zero_iff]
  rfl

/-- The common factor of monomials is zero exactly if all coefficients count as zero. -/
theorem common_spec {monomials : List (Monomial Float)} {common : Monomial Float}
    (isCommon : Monomial.common (factoring settings) monomials = .ok common) :
    common.powers = Monomial.commonPowers monomials ∧
      (Vanish monomials ∧ common.coefficient = Binary64.ofInt 0 ∨
        ¬ Vanish monomials ∧ (common.coefficient == 0.0) = false) := by
  obtain ⟨numbers?, areNumbers, same⟩ := except_bind_eq_ok.mp isCommon
  cases same
  refine ⟨rfl, ?_⟩
  rw [vanish_iff settings, areNumbers]
  cases numbers? with
  | none => exact .inr ⟨by simp, Binary64.ofInt_ne_zero Nat.one_pos⟩
  | some numbers =>
      have length : monomials.length = numbers.length :=
        ((wholeCoefficients?_eq_some settings).mp areNumbers).length_eq
      have zeros : (Except.ok (some numbers) : Except NumericFault (Option (List ℤ))) =
          .ok (some (monomials.map fun _ => 0)) ↔ (numbers.map Int.natAbs).foldl Nat.gcd 0 = 0 := by
        rw [Except.ok.injEq, Option.some.injEq, foldl_gcd_eq_zero, List.map_const', length,
          List.eq_replicate_iff]
        simp
      rw [zeros]
      dsimp only
      generalize (numbers.map Int.natAbs).foldl Nat.gcd 0 = content
      rcases Nat.eq_zero_or_pos content with rfl | positive
      · exact .inl ⟨rfl, rfl⟩
      · exact .inr ⟨positive.ne', Binary64.ofInt_ne_zero positive⟩

theorem fails_common (monomials : List (Monomial Float)) :
    Fails (Monomial.common (factoring settings) monomials) ↔
      Reaches (fun monomial => CountsAsWhole monomial.coefficient)
        (fun monomial => monomial.coefficient.isFinite = false) monomials :=
  (fails_bind_of_returns fun _ _ => not_fails_ok _).trans (fails_wholeCoefficients? settings _)

theorem fails_dividedBy (common monomial : Monomial Float) :
    Fails (Monomial.dividedBy (factoring settings) common monomial) ↔
      (common.coefficient == 0.0) = true :=
  (fails_bind_of_returns fun _ _ => not_fails_ok _).trans (fails_quotient settings)

/-- A common factor that was found cannot be taken out if it differs from one and is zero or
cannot be written. -/
theorem commonFails_iff {monomials : List (Monomial Float)} {common : Monomial Float}
    (isCommon : Monomial.common (factoring settings) monomials = .ok common) :
    CommonFails settings monomials ↔
      (settings.apart common.coefficient (Binary64.ofInt 1) = true ∨ common.powers ≠ []) ∧
        ((∃ entry ∈ common.powers, BeyondDoubles entry.2) ∨
          (common.coefficient == 0.0) = true) := by
  obtain ⟨arePowers, content⟩ := common_spec settings isCommon
  rw [arePowers]
  constructor
  · rintro (reached | ⟨vanish, divides⟩ | ⟨shared, beyond⟩)
    · have failed := (fails_common settings monomials).mpr reached
      rw [isCommon] at failed
      exact absurd failed (not_fails_ok _)
    · rcases content with ⟨-, isZero⟩ | ⟨notVanish, -⟩
      · rw [isZero]
        exact ⟨divides, .inr (by decide +kernel)⟩
      · exact absurd vanish notVanish
    · exact ⟨.inr (List.ne_nil_of_mem shared), .inl ⟨_, shared, beyond⟩⟩
  · rintro ⟨divides, ⟨entry, shared, beyond⟩ | zero⟩
    · exact .power shared beyond
    · rcases content with ⟨vanish, isZero⟩ | ⟨-, nonzero⟩
      · exact .content vanish (isZero ▸ divides)
      · rw [nonzero] at zero
        cases zero

theorem fails_takeCommon {monomials : List (Monomial Float)} (nonempty : monomials ≠ []) :
    Fails (Factorization.takeCommon (factoring settings) monomials) ↔
      CommonFails settings monomials := by
  unfold Factorization.takeCommon
  by_cases failed : Fails (Monomial.common (factoring settings) monomials)
  · exact iff_of_true (fails_bind.mpr (.inl failed))
      (.coefficient ((fails_common settings monomials).mp failed))
  obtain ⟨common, isCommon⟩ := not_fails.mp failed
  have condition : ((factoring settings).apart common.coefficient (factoring settings).one ||
      !common.powers.isEmpty) = true ↔
        settings.apart common.coefficient (Binary64.ofInt 1) = true ∨ common.powers ≠ [] := by
    rw [Bool.or_eq_true, Bool.not_eq_true', List.isEmpty_eq_false_iff]
    rfl
  rw [isCommon, except_ok_bind, commonFails_iff settings isCommon, ← condition]
  split
  next divides =>
    have divided : Fails (monomials.mapM (Monomial.dividedBy (factoring settings) common)) ↔
        (common.coefficient == 0.0) = true := by
      rw [fails_mapM]
      simp only [fails_dividedBy, exists_and_right]
      exact and_iff_right (List.exists_mem_of_ne_nil monomials nonempty)
    rw [and_iff_right divides, ← fails_powerExprs settings, ← divided]
    exact fails_bind_iff_or fun _ _ => fails_bind_of_returns fun _ _ => not_fails_ok _
  next keeps => exact iff_of_false (not_fails_ok _) fun found => keeps found.1

end CommonFactors

end Doubles

end ExprCalculus
