import ExprCalculus.Proofs.Outcomes
import ExprCalculus.Proofs.Polynomial.SharedPowers
import ExprCalculus.Proofs.Simplification.Meaning
import Mathlib.Data.Rat.Sqrt
import Mathlib.Tactic.FieldSimp

/-!
# Values of monomials

In exact arithmetic a number counts as whole or as a fraction only if it is one.  A
monomial has a value at a point, which gives every variable a rational number, and so
have sums of monomials.  Reading monomials off an expression, dividing them by their
common factor and writing them as an expression again keep the values.
-/

namespace ExprCalculus

namespace Exact

section Arithmetic

def whole? (number : ℚ) : Option ℤ :=
  if number.den = 1 then some number.num else none

def root? (number : ℚ) : Option ℚ :=
  if Rat.sqrt number * Rat.sqrt number = number then some (Rat.sqrt number) else none

/-- Exact arithmetic for factoring, without tolerances. -/
def factoring (interpretation : Interpretation) : FactoringArithmetic (Option ℚ) where
  toArithmetic := interpretation.arithmetic
  ofRat number := .ok (some number)
  quotient dividend divisor :=
    if divisor = some 0 then .error .divisionByZero
    else .ok (interpretation.binaryValue .divide dividend divisor)
  root value := if value.any (· < 0) then .error .negativeRoot else .ok (value.bind root?)
  power base exponent := .ok (base.map (· ^ exponent))
  whole? value := .ok (value.bind whole?)
  wholeRoot? value := .ok ((value.bind fun number => root? |number|).bind whole?)
  exponent? value := .ok (((value.bind whole?).filter (0 < ·)).map Int.toNat)
  fraction? value := .ok (value.filter (·.den ≤ 100))
  clearlyNegative value := value.any (· < 0)
  opposite first second := first.any fun left => second.any fun right => left * right < 0
  negligible _ value := value = some 0

variable {interpretation : Interpretation} {value : Option ℚ} {first second : ℚ}

@[simp]
theorem factoring_add : (factoring interpretation).add (some first) (some second) =
    some (first + second) := rfl

@[simp]
theorem factoring_mul : (factoring interpretation).mul (some first) (some second) =
    some (first * second) := rfl

@[simp]
theorem factoring_neg : (factoring interpretation).neg (some first) = some (-first) := rfl

@[simp]
theorem factoring_ofInt (number : ℤ) :
    (factoring interpretation).ofInt number = some (number : ℚ) := rfl

@[simp]
theorem factoring_zero : (factoring interpretation).zero = some 0 :=
  zero_eq interpretation

@[simp]
theorem factoring_one : (factoring interpretation).one = some 1 :=
  one_eq interpretation

theorem factoring_quotient_eq_ok :
    (factoring interpretation).quotient (some first) (some second) = .ok value ↔
      second ≠ 0 ∧ value = some (first / second) := by
  change (if some second = some 0 then Except.error NumericFault.divisionByZero
    else .ok (if second = 0 then none else some (first / second))) = .ok value ↔ _
  by_cases zero : second = 0
  · simp [zero]
  · simp [zero, eq_comm]

theorem factoring_div (nonzero : second ≠ 0) :
    (factoring interpretation).div (some first) (some second) = some (first / second) := by
  change (if second = 0 then none else some (first / second)) = _
  rw [if_neg nonzero]

section Roots

variable {number root : ℚ} {whole : ℤ}

theorem whole?_eq_some (isWhole : whole? number = some whole) : number = whole := by
  obtain ⟨denominator, same⟩ := Option.ite_none_right_eq_some.mp isWhole
  rw [← Option.some.inj same, (Rat.den_eq_one_iff number).mp denominator]

theorem root?_eq_some (isRoot : root? number = some root) : root ^ 2 = number := by
  obtain ⟨square, same⟩ := Option.ite_none_right_eq_some.mp isRoot
  rw [← Option.some.inj same, sq, square]

end Roots

theorem factoring_whole?_eq_ok {whole : ℤ}
    (isWhole : (factoring interpretation).whole? value = .ok (some whole)) :
    value = some (whole : ℚ) := by
  obtain ⟨number, rfl, same⟩ := Option.bind_eq_some_iff.mp (Except.ok.inj isWhole)
  rw [whole?_eq_some same]

theorem factoring_wholeRoot?_eq_ok {root : ℤ}
    (isRoot : (factoring interpretation).wholeRoot? (some first) = .ok (some root)) :
    (root : ℚ) ^ 2 = |first| := by
  obtain ⟨number, isNumber, same⟩ := Option.bind_eq_some_iff.mp (Except.ok.inj isRoot)
  rw [← whole?_eq_some same, root?_eq_some isNumber]

theorem factoring_exponent?_eq_ok {exponent : ℕ}
    (isExponent : (factoring interpretation).exponent? value = .ok (some exponent)) :
    value = some (exponent : ℚ) := by
  obtain ⟨whole, isPositive, rfl⟩ := Option.map_eq_some_iff.mp (Except.ok.inj isExponent)
  obtain ⟨isWhole, positive⟩ := Option.filter_eq_some_iff.mp isPositive
  obtain ⟨number, rfl, same⟩ := Option.bind_eq_some_iff.mp isWhole
  have nonnegative : ((whole.toNat : ℤ) : ℚ) = whole :=
    congrArg _ (Int.toNat_of_nonneg (of_decide_eq_true positive).le)
  rw [whole?_eq_some same, ← nonnegative, Int.cast_natCast]

theorem factoring_fraction?_eq_ok {fraction : ℚ}
    (isFraction : (factoring interpretation).fraction? value = .ok (some fraction)) :
    value = some fraction :=
  (Option.filter_eq_some_iff.mp (Except.ok.inj isFraction)).1

theorem factoring_root_eq_ok {root : ℚ}
    (isRoot : (factoring interpretation).root (some first) = .ok (some root)) :
    root ^ 2 = first := by
  change (if (some first).any (· < 0) then Except.error NumericFault.negativeRoot
    else .ok (root? first)) = _ at isRoot
  split at isRoot
  next => cases isRoot
  next => exact root?_eq_some (Except.ok.inj isRoot)

/-- A number is only replaced by itself. -/
theorem snap_eq {result : Option ℚ} (snapped : (factoring interpretation).snap value = .ok result) :
    result = value := by
  unfold FactoringArithmetic.snap at snapped
  obtain ⟨found, isFound, isResult⟩ := except_bind_eq_ok.mp snapped
  cases found with
  | none =>
      cases isResult
      rfl
  | some whole =>
      cases isResult
      exact (factoring_whole?_eq_ok isFound).symm

end Arithmetic

section Values

/-- A monomial has a value at a point, and each of its variables stands once. -/
structure Means (point : String → ℚ) (monomial : Monomial (Option ℚ)) (value : ℚ) : Prop where
  distinct : monomial.powers.Distinct
  defined : ∃ coefficient, monomial.coefficient = some coefficient ∧
    value = coefficient * monomial.powers.value point

/-- Monomials have values at a point, and these add up to the given one. -/
def MonomialsMean (point : String → ℚ) (monomials : List (Monomial (Option ℚ))) (value : ℚ) :
    Prop :=
  ∃ values, List.Forall₂ (Means point) monomials values ∧ values.sum = value

variable {valuation : Valuation} {point : String → ℚ}

theorem power_natCast_eq_some {otherwise : ℚ → ℚ → Option ℚ} {base value : ℚ} {exponent : ℕ} :
    power otherwise base exponent = some value ↔ value = base ^ exponent := by
  rw [← Int.cast_natCast, power_intCast_eq_some, zpow_natCast]
  exact and_iff_right fun negative => by omega

section Reading

variable (bound : ∀ name, valuation.bindings name = some (some (point name)))

include bound

theorem denotes_var {name : String} {value : ℚ} :
    Denotes valuation (.var name) value ↔ value = point name := by
  unfold Denotes
  rw [Expr.evaluate, bound]
  constructor
  · intro same
    exact (Option.some.inj (Except.ok.inj same)).symm
  · rintro rfl
    rfl

theorem ofFactor?_means {base : Expr (Option ℚ)} {monomial : Monomial (Option ℚ)} {value : ℚ}
    (denotes : Denotes valuation base value)
    (isMonomial : Monomial.ofFactor? (factoring valuation.interpretation) base =
      .ok (some monomial)) : Means point monomial value := by
  fun_induction Monomial.ofFactor? (factoring valuation.interpretation) base
      generalizing monomial value with
  | case1 constant =>
      cases isMonomial
      exact ⟨List.nodup_nil, value, denotes_const.mp denotes, by simp⟩
  | case2 name =>
      cases isMonomial
      obtain rfl := (denotes_var bound).mp denotes
      exact ⟨List.pairwise_singleton _ name, 1, one_eq valuation.interpretation, by simp⟩
  | case3 operand ih =>
      obtain ⟨inner, isInner, isMapped⟩ := except_bind_eq_ok.mp isMonomial
      obtain ⟨negated, rfl, rfl⟩ := Option.map_eq_some_iff.mp (Except.ok.inj isMapped)
      obtain ⟨operandValue, operandDenotes, rfl⟩ := denotes_neg.mp denotes
      obtain ⟨distinct, coefficient, isCoefficient, rfl⟩ := ih operandDenotes isInner
      refine ⟨distinct, -coefficient, ?_, (neg_mul _ _).symm⟩
      rw [isCoefficient, factoring_neg]
  | case4 name constant =>
      obtain ⟨found, isFound, isMapped⟩ := except_bind_eq_ok.mp isMonomial
      obtain ⟨exponent, rfl, rfl⟩ := Option.map_eq_some_iff.mp (Except.ok.inj isMapped)
      obtain rfl := factoring_exponent?_eq_ok isFound
      obtain ⟨base, number, baseDenotes, numberDenotes, combined⟩ := denotes_binary.mp denotes
      obtain rfl := (denotes_var bound).mp baseDenotes
      obtain rfl := Option.some.inj (denotes_const.mp numberDenotes)
      obtain rfl := power_natCast_eq_some.mp combined
      exact ⟨List.pairwise_singleton _ name, 1, one_eq valuation.interpretation, by simp⟩
  | case5 left right leftIH rightIH =>
      obtain ⟨first, isFirst, rest⟩ := except_bind_eq_ok.mp isMonomial
      obtain ⟨second, isSecond, isProduct⟩ := except_bind_eq_ok.mp rest
      obtain ⟨one, rfl, isMapped⟩ := Option.bind_eq_some_iff.mp (Except.ok.inj isProduct)
      obtain ⟨other, rfl, rfl⟩ := Option.map_eq_some_iff.mp isMapped
      obtain ⟨leftValue, rightValue, leftDenotes, rightDenotes, rfl⟩ := denotes_mul.mp denotes
      obtain ⟨distinct, coefficient, isCoefficient, rfl⟩ := leftIH leftDenotes isFirst
      obtain ⟨_, factor, isFactor, rfl⟩ := rightIH rightDenotes isSecond
      refine ⟨distinct.mul other.powers, coefficient * factor, ?_, ?_⟩
      · rw [isCoefficient, isFactor, factoring_mul]
      · rw [Powers.value_mul, mul_mul_mul_comm]
  | case6 => cases isMonomial

theorem ofTerms?_mean {terms : List (Term (Option ℚ))} {monomials : List (Monomial (Option ℚ))}
    {value : ℚ} (denote : TermsDenote valuation terms value)
    (areMonomials : Monomial.ofTerms? (factoring valuation.interpretation) terms =
      .ok (some monomials)) : MonomialsMean point monomials value := by
  fun_induction Monomial.ofTerms? (factoring valuation.interpretation) terms
      generalizing monomials value with
  | case1 =>
      cases areMonomials
      cases denote
      exact ⟨[], .nil, rfl⟩
  | case2 coefficient rest ih =>
      obtain ⟨found, isFound, isMapped⟩ := except_bind_eq_ok.mp areMonomials
      obtain ⟨others, rfl, rfl⟩ := Option.map_eq_some_iff.mp (Except.ok.inj isMapped)
      obtain ⟨number, restValue, ⟨_, isCoefficient, rfl⟩, restDenote, rfl⟩ := denote
      obtain ⟨values, mean, rfl⟩ := ih restDenote isFound
      have constant : Means point ⟨coefficient, []⟩ number :=
        ⟨List.nodup_nil, number, isCoefficient, by simp⟩
      exact ⟨number :: values, .cons constant mean, List.sum_cons⟩
  | case3 coefficient rest base ih =>
      obtain ⟨read, isRead, remaining⟩ := except_bind_eq_ok.mp areMonomials
      cases read with
      | none => cases remaining
      | some monomial =>
          obtain ⟨found, isFound, isMapped⟩ := except_bind_eq_ok.mp remaining
          obtain ⟨others, rfl, rfl⟩ := Option.map_eq_some_iff.mp (Except.ok.inj isMapped)
          obtain ⟨termValue, restValue, ⟨number, isNumber, factor, baseDenotes, rfl⟩, restDenote,
            rfl⟩ := denote
          obtain ⟨values, mean, rfl⟩ := ih restDenote isFound
          obtain ⟨distinct, inner, isInner, rfl⟩ := ofFactor?_means bound baseDenotes isRead
          refine ⟨_ :: values, .cons ⟨distinct, number * inner, ?_, rfl⟩ mean, ?_⟩
          · change (factoring valuation.interpretation).mul coefficient monomial.coefficient = _
            dsimp only at isNumber
            rw [isNumber, isInner, factoring_mul]
          · rw [List.sum_cons, mul_assoc]

end Reading

section Common

variable {interpretation : Interpretation} {monomials rest : List (Monomial (Option ℚ))}
  {common monomial divided : Monomial (Option ℚ)} {value scale : ℚ}

theorem common_spec (isCommon : Monomial.common (factoring interpretation) monomials = .ok common) :
    (∃ content, common.coefficient = some content) ∧
      common.powers = Monomial.commonPowers monomials := by
  unfold Monomial.common at isCommon
  obtain ⟨numbers, -, same⟩ := except_bind_eq_ok.mp isCommon
  cases same
  cases numbers with
  | none => exact ⟨⟨1, one_eq interpretation⟩, rfl⟩
  | some numbers => exact ⟨⟨_, rfl⟩, rfl⟩

theorem dividedBy_means (means : Means point monomial value)
    (isScale : common.coefficient = some scale) (commonDistinct : common.powers.Distinct)
    (shared : ∀ entry ∈ common.powers,
      entry.1 ∈ monomial.powers.map Prod.fst ∧ entry.2 ≤ monomial.powers.of entry.1)
    (isDivided : Monomial.dividedBy (factoring interpretation) common monomial = .ok divided) :
    ∃ quotient, Means point divided quotient ∧
      scale * common.powers.value point * quotient = value := by
  obtain ⟨distinct, coefficient, isCoefficient, rfl⟩ := means
  obtain ⟨ratio, isRatio, same⟩ := except_bind_eq_ok.mp isDivided
  cases same
  rw [isScale, isCoefficient, factoring_quotient_eq_ok] at isRatio
  obtain ⟨nonzero, rfl⟩ := isRatio
  refine ⟨_, ⟨distinct.without _, coefficient / scale, rfl, rfl⟩, ?_⟩
  rw [← distinct.value_without commonDistinct shared]
  field_simp

theorem MonomialsMean.distinct (mean : MonomialsMean point monomials value) :
    ∀ other ∈ monomials, other.powers.Distinct := by
  obtain ⟨values, means, -⟩ := mean
  induction means with
  | nil => exact List.forall_mem_nil _
  | cons first _ ih => exact List.forall_mem_cons.mpr ⟨first.distinct, ih⟩

/-- Dividing each monomial by a common factor divides the sum. -/
theorem MonomialsMean.dividedBy (mean : MonomialsMean point monomials value)
    (isScale : common.coefficient = some scale) (commonDistinct : common.powers.Distinct)
    (shared : ∀ other ∈ monomials, ∀ entry ∈ common.powers,
      entry.1 ∈ other.powers.map Prod.fst ∧ entry.2 ≤ other.powers.of entry.1)
    (areDivided : monomials.mapM (Monomial.dividedBy (factoring interpretation) common) =
      .ok rest) :
    ∃ quotient, MonomialsMean point rest quotient ∧
      scale * common.powers.value point * quotient = value := by
  obtain ⟨values, means, rfl⟩ := mean
  rw [mapM_eq_ok] at areDivided
  induction means generalizing rest with
  | nil =>
      cases areDivided
      exact ⟨0, ⟨[], .nil, rfl⟩, by simp⟩
  | cons first others ih =>
      cases areDivided with
      | cons firstDivided othersDivided =>
          rw [List.forall_mem_cons] at shared
          obtain ⟨quotient, isQuotient, firstTotal⟩ :=
            dividedBy_means first isScale commonDistinct shared.1 firstDivided
          obtain ⟨_, ⟨quotients, areQuotients, rfl⟩, othersTotal⟩ := ih shared.2 othersDivided
          refine ⟨_, ⟨quotient :: quotients, .cons isQuotient areQuotients, rfl⟩, ?_⟩
          rw [List.sum_cons, List.sum_cons, mul_add, firstTotal, othersTotal]

end Common

section Writing

variable {valuation : Valuation} {point : String → ℚ}
  (bound : ∀ name, valuation.bindings name = some (some (point name)))

/-- Expressions are defined, and their product is the given value. -/
def FactorsDenote (valuation : Valuation) (factors : List (Expr (Option ℚ))) (value : ℚ) : Prop :=
  ∃ values, List.Forall₂ (Denotes valuation) factors values ∧ values.prod = value

theorem FactorsDenote.congr {factors : List (Expr (Option ℚ))} {value other : ℚ}
    (denote : FactorsDenote valuation factors value) (same : value = other) :
    FactorsDenote valuation factors other :=
  same ▸ denote

theorem FactorsDenote.single {factor : Expr (Option ℚ)} {value : ℚ}
    (denotes : Denotes valuation factor value) : FactorsDenote valuation [factor] value :=
  ⟨[value], .cons denotes .nil, List.prod_singleton⟩

theorem FactorsDenote.cons {factor : Expr (Option ℚ)} {factors : List (Expr (Option ℚ))}
    {first others : ℚ} (denotes : Denotes valuation factor first)
    (denote : FactorsDenote valuation factors others) :
    FactorsDenote valuation (factor :: factors) (first * others) := by
  obtain ⟨values, areValues, rfl⟩ := denote
  exact ⟨first :: values, .cons denotes areValues, List.prod_cons⟩

@[simp]
theorem factorsDenote_nil {value : ℚ} : FactorsDenote valuation [] value ↔ value = 1 := by
  constructor
  · rintro ⟨_, areValues, rfl⟩
    cases areValues
    exact List.prod_nil
  · rintro rfl
    exact ⟨[], .nil, List.prod_nil⟩

theorem FactorsDenote.of_cons {factor : Expr (Option ℚ)} {factors : List (Expr (Option ℚ))}
    {value : ℚ} (denote : FactorsDenote valuation (factor :: factors) value) :
    ∃ first others, Denotes valuation factor first ∧ FactorsDenote valuation factors others ∧
      value = first * others := by
  obtain ⟨_, areValues, rfl⟩ := denote
  cases areValues with
  | cons denotes others => exact ⟨_, _, denotes, ⟨_, others, rfl⟩, List.prod_cons⟩

theorem FactorsDenote.append {factors others : List (Expr (Option ℚ))} {first second : ℚ}
    (firstDenote : FactorsDenote valuation factors first)
    (secondDenote : FactorsDenote valuation others second) :
    FactorsDenote valuation (factors ++ others) (first * second) := by
  obtain ⟨values, areValues, rfl⟩ := firstDenote
  obtain ⟨otherValues, areOthers, rfl⟩ := secondDenote
  exact ⟨values ++ otherValues, List.rel_append areValues areOthers, List.prod_append⟩

theorem foldl_mul_denotes {factor : Expr (Option ℚ)} {factors : List (Expr (Option ℚ))}
    {first others : ℚ} (denotes : Denotes valuation factor first)
    (denote : FactorsDenote valuation factors others) :
    Denotes valuation (factors.foldl (· * ·) factor) (first * others) := by
  obtain ⟨values, areValues, rfl⟩ := denote
  induction areValues generalizing factor first with
  | nil => simpa using denotes
  | cons second _ ih =>
      rw [List.foldl_cons, List.prod_cons, ← mul_assoc]
      exact ih (denotes.mul second)

include bound

theorem powerExpr_denotes {name : String} {power : ℕ} {factor : Expr (Option ℚ)}
    (isPower : Monomial.powerExpr (factoring valuation.interpretation) name power = .ok factor) :
    Denotes valuation factor (point name ^ power) := by
  have variableDenotes : Denotes valuation (.var name) (point name) := (denotes_var bound).mpr rfl
  unfold Monomial.powerExpr at isPower
  split at isPower
  next isOne =>
    cases isPower
    rwa [isOne, pow_one]
  next =>
    cases isPower
    refine denotes_binary.mpr ⟨_, (power : ℚ), variableDenotes, denotes_const.mpr rfl, ?_⟩
    exact power_natCast_eq_some.mpr rfl

theorem powerExprs_denote {powers : Powers} {factors : List (Expr (Option ℚ))}
    (arePowers : Monomial.powerExprs (factoring valuation.interpretation) powers = .ok factors) :
    FactorsDenote valuation factors (powers.value point) := by
  unfold Monomial.powerExprs at arePowers
  rw [mapM_eq_ok] at arePowers
  induction arePowers with
  | nil => exact factorsDenote_nil.mpr rfl
  | cons isPower _ ih =>
      rw [Powers.value_cons]
      exact ih.cons (powerExpr_denotes bound isPower)

/-- The product of some powers is their value, and it is one if there are none. -/
theorem powersExpr?_denotes {powers : Powers} {base? : Option (Expr (Option ℚ))}
    (isProduct : Monomial.powersExpr? (factoring valuation.interpretation) powers = .ok base?) :
    match base? with
    | none => powers.value point = 1
    | some base => Denotes valuation base (powers.value point) := by
  unfold Monomial.powersExpr? at isProduct
  obtain ⟨factors, areFactors, same⟩ := except_bind_eq_ok.mp isProduct
  have denote := powerExprs_denote bound areFactors
  cases factors with
  | nil =>
      cases same
      exact factorsDenote_nil.mp denote
  | cons factor factors =>
      cases same
      obtain ⟨first, others, firstDenotes, othersDenote, isProduct⟩ := denote.of_cons
      rw [isProduct]
      exact foldl_mul_denotes firstDenotes othersDenote

theorem sumExpr_denotes {monomials : List (Monomial (Option ℚ))} {sum : Expr (Option ℚ)} {value : ℚ}
    (mean : MonomialsMean point monomials value)
    (isSum : Monomial.sumExpr (factoring valuation.interpretation) monomials = .ok sum) :
    Denotes valuation sum value := by
  obtain ⟨terms, areTerms, same⟩ := except_bind_eq_ok.mp isSum
  cases same
  apply join_denotes
  obtain ⟨values, means, rfl⟩ := mean
  rw [mapM_eq_ok] at areTerms
  clear isSum
  induction means generalizing terms with
  | nil =>
      cases areTerms
      rfl
  | cons first _ ih =>
      cases areTerms with
      | cons isTerm others =>
          refine ⟨_, _, ?_, ih _ others, List.sum_cons⟩
          obtain ⟨_, snapped, written⟩ := except_bind_eq_ok.mp isTerm
          obtain ⟨base?, isBase, same⟩ := except_bind_eq_ok.mp written
          obtain rfl := snap_eq snapped
          cases same
          obtain ⟨-, coefficient, isCoefficient, rfl⟩ := first
          have denotes := powersExpr?_denotes bound isBase
          refine ⟨coefficient, isCoefficient, ?_⟩
          cases base? with
          | none =>
              dsimp only at denotes ⊢
              rw [denotes, mul_one]
          | some base => exact ⟨_, denotes, rfl⟩

end Writing

end Values

end Exact

end ExprCalculus
