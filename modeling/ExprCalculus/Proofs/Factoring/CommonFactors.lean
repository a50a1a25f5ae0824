import ExprCalculus.Proofs.Factoring.WholeNumbers
import ExprCalculus.Proofs.Polynomial.SharedPowers

/-!
# The common factor of monomials

Monomials whose coefficients are whole have the greatest common divisor of the
coefficients and the lowest powers as their common factor.  Dividing by it is exact, and
what is left has no common factor: no whole number but one divides all coefficients, and
no variable occurs in all monomials.
-/

namespace ExprCalculus

namespace Doubles

open Binary64

section Contents

def IsMultiple (divisor : ℕ) (value : Float) : Prop :=
  ∃ quotient : ℤ, IsWhole value (quotient * divisor)

def wholePart (value : Float) : ℤ :=
  ((toRat? value).getD 0).num

theorem wholePart_eq {value : Float} {number : ℤ} (whole : IsWhole value number) :
    wholePart value = number := by
  unfold wholePart
  rw [whole, Option.getD_some, Rat.num_intCast]

def content (monomials : List (Monomial Float)) : ℕ :=
  ((monomials.map fun monomial => wholePart monomial.coefficient).map Int.natAbs).foldl Nat.gcd 0

theorem dvd_foldl_gcd {numbers : List ℕ} {divisor start : ℕ} :
    divisor ∣ numbers.foldl Nat.gcd start ↔
      divisor ∣ start ∧ ∀ number ∈ numbers, divisor ∣ number := by
  induction numbers generalizing start with
  | nil => simp
  | cons number numbers ih =>
      rw [List.foldl_cons, ih, Nat.dvd_gcd_iff, List.forall_mem_cons, and_assoc]

theorem dvd_content {monomials : List (Monomial Float)} {divisor : ℕ} :
    divisor ∣ content monomials ↔
      ∀ monomial ∈ monomials, (divisor : ℤ) ∣ wholePart monomial.coefficient := by
  unfold content
  rw [dvd_foldl_gcd, and_iff_right (dvd_zero divisor)]
  simp only [List.forall_mem_map, Int.natCast_dvd]

end Contents

/-- A monomial has a whole coefficient other than zero and positive powers. -/
structure IsIntegral (monomial : Monomial Float) : Prop where
  whole : ∃ number : ℤ, IsWhole monomial.coefficient number ∧ number ≠ 0
  proper : monomial.powers.IsProper

/-- A monomial is the product of a common factor and what is left of it. -/
structure Restores (common rest monomial : Monomial Float) : Prop where
  coefficient : rest.coefficient * common.coefficient = monomial.coefficient
  powers : (rest.powers.mul common.powers).Perm monomial.powers

/-- What is left of monomials without their common factor. -/
structure IsResidue (monomials : List (Monomial Float)) (common : Monomial Float)
    (residue : List (Monomial Float)) : Prop where
  positive : ∃ content : ℕ, 0 < content ∧ IsWhole common.coefficient content
  restored : List.Forall₂ (Restores common) residue monomials
  integral : ∀ rest ∈ residue, IsIntegral rest
  primitive : ∀ divisor : ℕ, (∀ rest ∈ residue, IsMultiple divisor rest.coefficient) → divisor = 1
  exhausted : ∀ name, ∃ rest ∈ residue, name ∉ rest.powers.map Prod.fst

def reduced (common monomial : Monomial Float) : Monomial Float :=
  ⟨monomial.coefficient / common.coefficient, monomial.powers.without common.powers⟩

def commonOf (monomials : List (Monomial Float)) : Monomial Float :=
  ⟨ofInt (content monomials), Monomial.commonPowers monomials⟩

section Steps

variable (settings : Settings) {common monomial : Monomial Float}

theorem dividedBy_eq (nonzero : (common.coefficient == 0.0) = false) (monomial : Monomial Float) :
    Monomial.dividedBy (factoring settings) common monomial = .ok (reduced common monomial) := by
  have isQuotient : (factoring settings).quotient monomial.coefficient common.coefficient =
      .ok (monomial.coefficient / common.coefficient) := if_neg (Bool.eq_false_iff.mp nonzero)
  unfold Monomial.dividedBy
  rw [isQuotient]
  rfl

theorem IsIntegral.isWhole (integral : IsIntegral monomial) :
    IsWhole monomial.coefficient (wholePart monomial.coefficient) ∧
      wholePart monomial.coefficient ≠ 0 := by
  obtain ⟨number, whole, nonzero⟩ := integral.whole
  rw [wholePart_eq whole]
  exact ⟨whole, nonzero⟩

/-- A monomial is divided by a factor of it without rounding. -/
theorem IsIntegral.reduced {content : ℕ} (integral : IsIntegral monomial)
    (commonWhole : IsWhole common.coefficient content)
    (divides : (content : ℤ) ∣ wholePart monomial.coefficient)
    (commonProper : common.powers.IsProper)
    (lower : ∀ name, common.powers.of name ≤ monomial.powers.of name) :
    IsIntegral (reduced common monomial) ∧ Restores common (reduced common monomial) monomial ∧
      wholePart (Doubles.reduced common monomial).coefficient * content =
        wholePart monomial.coefficient := by
  obtain ⟨whole, nonzero⟩ := integral.isWhole
  obtain ⟨quotient, isProduct⟩ := divides
  rw [mul_comm] at isProduct
  rw [isProduct] at whole nonzero
  have quotientNonzero := left_ne_zero_of_mul nonzero
  have divided := whole.div commonWhole quotientNonzero (right_ne_zero_of_mul nonzero)
  have product := divided.mul commonWhole ⟨_, whole⟩
  refine ⟨⟨⟨quotient, divided, quotientNonzero⟩, integral.proper.without _⟩,
    ⟨product.eq_of_ne_zero whole nonzero,
      integral.proper.without_mul_perm commonProper lower⟩, ?_⟩
  rw [isProduct]
  exact congrArg (· * _) (wholePart_eq divided)

end Steps

section Lists

variable (settings : Settings) {monomials : List (Monomial Float)}
  (integral : ∀ monomial ∈ monomials, IsIntegral monomial)

include integral

theorem common_of_integral :
    Monomial.common (factoring settings) monomials = .ok (commonOf monomials) := by
  have counted : Monomial.wholeCoefficients? (factoring settings) monomials =
      .ok (some (monomials.map fun monomial => wholePart monomial.coefficient)) := by
    rw [wholeCoefficients?_eq_some, List.forall₂_map_right_iff, List.forall₂_same]
    exact fun monomial member => whole?_of_isWhole (integral monomial member).isWhole.1
  unfold Monomial.common
  rw [counted]
  rfl

/-- The content of monomials is a double, because it divides their coefficients. -/
theorem content_of_integral (nonempty : monomials ≠ []) :
    0 < content monomials ∧ IsWhole (commonOf monomials).coefficient (content monomials) := by
  obtain ⟨monomial, member⟩ := List.exists_mem_of_ne_nil monomials nonempty
  obtain ⟨whole, nonzero⟩ := (integral monomial member).isWhole
  have divides := dvd_content.mp (dvd_refl (content monomials)) monomial member
  refine ⟨?_, isWhole_ofInt (Representable.of_dvd ⟨_, whole⟩ nonzero divides)⟩
  rw [Nat.pos_iff_ne_zero]
  intro isZero
  rw [isZero, Nat.cast_zero, zero_dvd_iff] at divides
  exact nonzero divides

theorem reduced_of_integral {monomial : Monomial Float} (member : monomial ∈ monomials) :
    IsIntegral (reduced (commonOf monomials) monomial) ∧
      Restores (commonOf monomials) (reduced (commonOf monomials) monomial) monomial ∧
      wholePart (reduced (commonOf monomials) monomial).coefficient * content monomials =
        wholePart monomial.coefficient := by
  have distinct : ∀ other ∈ monomials, other.powers.Distinct :=
    fun other isOther => (integral other isOther).proper.distinct
  exact (integral monomial member).reduced
    (content_of_integral integral (List.ne_nil_of_mem member)).2
    (dvd_content.mp (dvd_refl _) monomial member)
    (Monomial.commonPowers_proper fun other isOther => (integral other isOther).proper)
    (Monomial.of_commonPowers_le distinct member)

/-- No whole number but one divides all that is left of the coefficients. -/
theorem eq_one_of_isMultiple (nonempty : monomials ≠ []) {divisor : ℕ}
    (multiples : ∀ monomial ∈ monomials,
      IsMultiple divisor (reduced (commonOf monomials) monomial).coefficient) : divisor = 1 := by
  have positive := (content_of_integral integral nonempty).1
  have divides : divisor * content monomials ∣ 1 * content monomials := by
    rw [one_mul, dvd_content]
    intro monomial member
    obtain ⟨-, -, product⟩ := reduced_of_integral integral member
    obtain ⟨quotient, isMultiple⟩ := multiples monomial member
    rw [← product, wholePart_eq isMultiple, Nat.cast_mul, mul_assoc]
    exact dvd_mul_left _ quotient
  exact Nat.dvd_one.mp (Nat.dvd_of_mul_dvd_mul_right positive divides)

/-- Each variable is missing in something that is left. -/
theorem exists_without (nonempty : monomials ≠ []) (name : String) :
    ∃ monomial ∈ monomials,
      name ∉ (reduced (commonOf monomials) monomial).powers.map Prod.fst := by
  have distinct : ∀ other ∈ monomials, other.powers.Distinct :=
    fun other isOther => (integral other isOther).proper.distinct
  obtain ⟨monomial, member, lowest⟩ := Monomial.exists_of_commonPowers distinct nonempty name
  refine ⟨monomial, member, fun occurs => ?_⟩
  have proper := (integral monomial member).proper
  have positive := (proper.without (Monomial.commonPowers monomials)).positive _
    (Powers.mem_of occurs)
  have nothing : (monomial.powers.without (Monomial.commonPowers monomials)).of name = 0 := by
    rw [proper.distinct.of_without, lowest, Nat.sub_self]
  exact positive.ne' nothing

theorem isResidue_of_integral (nonempty : monomials ≠ []) :
    IsResidue monomials (commonOf monomials) (monomials.map (reduced (commonOf monomials))) where
  positive := ⟨content monomials, content_of_integral integral nonempty⟩
  restored := by
    rw [List.forall₂_map_left_iff, List.forall₂_same]
    exact fun monomial member => (reduced_of_integral integral member).2.1
  integral := by
    rw [List.forall_mem_map]
    exact fun monomial member => (reduced_of_integral integral member).1
  primitive divisor multiples := by
    rw [List.forall_mem_map] at multiples
    exact eq_one_of_isMultiple integral nonempty multiples
  exhausted name := by
    obtain ⟨monomial, member, absent⟩ := exists_without integral nonempty name
    exact ⟨_, List.mem_map_of_mem member, absent⟩

theorem mapM_dividedBy (nonempty : monomials ≠ []) :
    monomials.mapM (Monomial.dividedBy (factoring settings) (commonOf monomials)) =
      .ok (monomials.map (reduced (commonOf monomials))) := by
  have nonzero : ((commonOf monomials).coefficient == 0.0) = false :=
    ofInt_ne_zero (content_of_integral integral nonempty).1
  rw [mapM_eq_ok, List.forall₂_map_right_iff, List.forall₂_same]
  exact fun monomial _ => dividedBy_eq settings nonzero monomial

/-- Without a common factor nothing is changed. -/
theorem map_reduced_eq (isOne : content monomials = 1)
    (noPowers : (commonOf monomials).powers = []) :
    monomials.map (reduced (commonOf monomials)) = monomials := by
  refine (List.map_congr_left fun monomial member => ?_).trans monomials.map_id
  obtain ⟨-, restored, -⟩ := reduced_of_integral integral member
  have sameCoefficient := restored.coefficient
  have coefficientOne : (commonOf monomials).coefficient = ofInt 1 := by
    unfold commonOf
    rw [isOne, Nat.cast_one]
  rw [coefficientOne, mul_one_eq] at sameCoefficient
  have samePowers : (reduced (commonOf monomials) monomial).powers = monomial.powers := by
    unfold reduced
    rw [noPowers]
    exact (integral monomial member).proper.without_nil
  exact congrArg₂ Monomial.mk sameCoefficient samePowers

/-- Factoring takes the common factor out, if there is one and its powers can be written. -/
theorem takeCommon_of_integral (nonempty : monomials ≠ []) (atMostOne : settings.epsilon ≤ 1.0)
    (written : ∀ entry ∈ (commonOf monomials).powers, ¬ BeyondDoubles entry.2) :
    ∃ front, Factorization.takeCommon (factoring settings) monomials =
      .ok (front, monomials.map (reduced (commonOf monomials))) := by
  obtain ⟨powers, arePowers⟩ :
      ∃ powers, Monomial.powerExprs (factoring settings) (commonOf monomials).powers =
        .ok powers := by
    rw [← not_fails, fails_powerExprs]
    push Not
    exact written
  unfold Factorization.takeCommon
  rw [common_of_integral settings integral, except_ok_bind]
  split
  next =>
    rw [arePowers, except_ok_bind, mapM_dividedBy settings integral nonempty, except_ok_bind]
    exact ⟨_, rfl⟩
  next keeps =>
    rw [Bool.or_eq_true, not_or, Bool.not_eq_true', Bool.not_eq_false] at keeps
    have isOne : content monomials = 1 := by
      by_contra different
      exact keeps.1 (apart_of_ne atMostOne (content_of_integral integral nonempty).2 isWhole_one
        (by exact_mod_cast different))
    rw [map_reduced_eq integral isOne (List.isEmpty_iff.mp keeps.2)]
    exact ⟨[], rfl⟩

end Lists

/-- The common factor of monomials with whole coefficients is taken out without rounding
and leaves nothing in common.  Factoring goes on with what is left whenever it has put the
common factor in front, and with a tolerance of at most one it does so whenever there is a
common factor that can be written. -/
theorem common_factor_taken_out (settings : Settings) {monomials : List (Monomial Float)}
    (nonempty : monomials ≠ []) (integral : ∀ monomial ∈ monomials, IsIntegral monomial) :
    ∃ common residue, Monomial.common (factoring settings) monomials = .ok common ∧
      monomials.mapM (Monomial.dividedBy (factoring settings) common) = .ok residue ∧
      IsResidue monomials common residue ∧
      (∀ front rest, Factorization.takeCommon (factoring settings) monomials =
        .ok (front, rest) → front ≠ [] → rest = residue) ∧
      (settings.epsilon ≤ 1.0 → (∀ entry ∈ common.powers, ¬ BeyondDoubles entry.2) →
        ∃ front, Factorization.takeCommon (factoring settings) monomials =
          .ok (front, residue)) := by
  have isCommon := common_of_integral settings integral
  have areDivided := mapM_dividedBy settings integral nonempty
  refine ⟨_, _, isCommon, areDivided, isResidue_of_integral integral nonempty, ?_,
    takeCommon_of_integral settings integral nonempty⟩
  intro front rest taken found
  unfold Factorization.takeCommon at taken
  rw [isCommon, except_ok_bind] at taken
  split at taken
  next =>
    obtain ⟨powers, -, divided⟩ := except_bind_eq_ok.mp taken
    rw [areDivided, except_ok_bind] at divided
    cases divided
    rfl
  next =>
    cases taken
    exact absurd rfl found

section Instance

/-- The terms of `6 * x ^ 2 * y - 4 * x`. -/
def sharedTerms : List (Monomial Float) :=
  [⟨ofInt 6, [("x", 2), ("y", 1)]⟩, ⟨ofInt (-4), [("x", 1)]⟩]

theorem sharedTerms_integral : ∀ monomial ∈ sharedTerms, IsIntegral monomial := by
  intro monomial member
  rcases List.mem_pair.mp member with rfl | rfl
  · exact ⟨⟨6, isWhole_ofInt (representable_of_small (by decide)), by decide⟩,
      ⟨by unfold Powers.Distinct; decide, by decide⟩⟩
  · exact ⟨⟨-4, isWhole_ofInt (representable_of_small (by decide)), by decide⟩,
      ⟨by unfold Powers.Distinct; decide, by decide⟩⟩

theorem sharedTerms_powers : (commonOf sharedTerms).powers = [("x", 1)] := by
  decide

theorem common_factor_of_sharedTerms :
    sharedTerms ≠ [] ∧ (∀ monomial ∈ sharedTerms, IsIntegral monomial) ∧
      Settings.standard.epsilon ≤ 1.0 ∧
      ∃ common residue,
        Monomial.common (factoring .standard) sharedTerms = .ok common ∧
        sharedTerms.mapM (Monomial.dividedBy (factoring .standard) common) = .ok residue ∧
        IsResidue sharedTerms common residue ∧
        ∃ front, Factorization.takeCommon (factoring .standard) sharedTerms =
          .ok (front, residue) := by
  have several : sharedTerms ≠ [] := List.cons_ne_nil _ _
  have small : Settings.standard.epsilon ≤ 1.0 := by decide +kernel
  obtain ⟨common, residue, isCommon, divided, isResidue, -, taken⟩ :=
    common_factor_taken_out .standard several sharedTerms_integral
  refine ⟨several, sharedTerms_integral, small, common, residue, isCommon, divided, isResidue,
    taken small fun entry member => ?_⟩
  obtain rfl := Except.ok.inj
    (isCommon.symm.trans (common_of_integral .standard sharedTerms_integral))
  rw [sharedTerms_powers, List.mem_singleton] at member
  rw [member]
  exact not_beyondDoubles_one

end Instance

end Doubles

end ExprCalculus
