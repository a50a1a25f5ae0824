import ExprCalculus.Proofs.Polynomial.Splitting
import ExprCalculus.Proofs.Simplification.Preservation

/-!
# Factored expressions

In exact arithmetic the factors taken out of a sum of monomials and the factors that
the rest is split into multiply to the sum, so factoring an expression keeps its value
at every point.
-/

namespace ExprCalculus

namespace Exact

variable {valuation : Valuation} {point : String → ℚ}

section Products

variable {factors : List (Expr (Option ℚ))} {value : ℚ}

/-- Merging the constant factors keeps the product. -/
theorem constants_merged {step : Option ℚ → Expr (Option ℚ) → Option ℚ} {start : ℚ}
    {merged : Option ℚ} (isMerged : factors.foldl step (some start) = merged)
    (merges : ∀ scale constant, step scale (.const constant) =
      (factoring valuation.interpretation).mul scale constant)
    (skips : ∀ scale factor, factor.kind ≠ .constant → step scale factor = scale)
    (denote : FactorsDenote valuation factors value) :
    ∃ scale others, merged = some scale ∧
      FactorsDenote valuation (factors.filter fun factor => factor.kind ≠ .constant) others ∧
      scale * others = start * value := by
  induction factors generalizing start value with
  | nil =>
      obtain rfl := factorsDenote_nil.mp denote
      exact ⟨start, 1, isMerged.symm, factorsDenote_nil.mpr rfl, rfl⟩
  | cons factor factors ih =>
      obtain ⟨first, others, denotes, othersDenote, rfl⟩ := denote.of_cons
      rw [List.foldl_cons] at isMerged
      by_cases constant : factor.kind = .constant
      · obtain ⟨number, rfl⟩ := Expr.exists_const_of_kind constant
        obtain rfl := denotes_const.mp denotes
        rw [merges, factoring_mul] at isMerged
        obtain ⟨scale, rest, isScale, restDenote, total⟩ := ih isMerged othersDenote
        refine ⟨scale, rest, isScale, ?_, total.trans (mul_assoc ..)⟩
        rwa [List.filter_cons_of_neg (by simpa using constant)]
      · rw [skips _ _ constant] at isMerged
        obtain ⟨scale, rest, isScale, restDenote, total⟩ := ih isMerged othersDenote
        refine ⟨scale, first * rest, isScale, ?_, ?_⟩
        · rw [List.filter_cons_of_pos (by simpa using constant)]
          exact restDenote.cons denotes
        · rw [mul_left_comm, total, mul_left_comm]

theorem product_denotes {result : Expr (Option ℚ)} (denote : FactorsDenote valuation factors value)
    (isProduct : Factorization.product (factoring valuation.interpretation) factors = .ok result) :
    Denotes valuation result value := by
  unfold Factorization.product at isProduct
  rw [factoring_one] at isProduct
  dsimp only at isProduct
  generalize isMerged : List.foldl _ _ factors = merged at isProduct
  obtain ⟨scale, others, rfl, othersDenote, total⟩ := constants_merged isMerged (fun _ _ => rfl)
    (by
      intro scale factor other
      cases factor with
      | const => exact absurd rfl other
      | _ => rfl) denote
  rw [one_mul] at total
  rw [← total]
  split at isProduct
  next noOthers =>
    rw [noOthers, factorsDenote_nil] at othersDenote
    obtain ⟨constant, snapped, same⟩ := except_bind_eq_ok.mp isProduct
    cases same
    rw [snap_eq snapped, othersDenote, mul_one]
    exact denotes_const.mpr rfl
  next factor rest areOthers =>
    rw [areOthers] at othersDenote
    split at isProduct
    next minusOne =>
      cases isProduct
      obtain ⟨first, restValue, firstDenotes, restDenote, rfl⟩ := othersDenote.of_cons
      have isMinusOne : scale = ((-1 : ℤ) : ℚ) := Option.some.inj (of_decide_eq_true minusOne)
      rw [isMinusOne, Int.cast_neg, Int.cast_one, ← mul_assoc, neg_one_mul]
      exact foldl_mul_denotes firstDenotes.neg restDenote
    split at isProduct
    next =>
      obtain ⟨constant, snapped, same⟩ := except_bind_eq_ok.mp isProduct
      cases same
      rw [snap_eq snapped]
      exact foldl_mul_denotes (denotes_const.mpr rfl) othersDenote
    next notApart =>
      cases isProduct
      obtain ⟨first, restValue, firstDenotes, restDenote, rfl⟩ := othersDenote.of_cons
      have isOne : scale = 1 := by
        by_contra different
        exact notApart (decide_eq_true fun same => different (Option.some.inj same))
      rw [isOne, one_mul]
      exact foldl_mul_denotes firstDenotes restDenote

end Products

section Sums

variable (bound : ∀ name, valuation.bindings name = some (some (point name)))
  {monomials rest : List (Monomial (Option ℚ))} {front : List (Expr (Option ℚ))} {value : ℚ}

include bound

/-- The factors in front and the sum that is left multiply to the sum. -/
theorem takeCommon_spec (mean : MonomialsMean point monomials value)
    (taken : Factorization.takeCommon (factoring valuation.interpretation) monomials =
      .ok (front, rest)) :
    ∃ scale quotient, FactorsDenote valuation front scale ∧ MonomialsMean point rest quotient ∧
      scale * quotient = value := by
  unfold Factorization.takeCommon at taken
  obtain ⟨common, isCommon, remaining⟩ := except_bind_eq_ok.mp taken
  split at remaining
  next =>
    obtain ⟨powers, arePowers, divided⟩ := except_bind_eq_ok.mp remaining
    obtain ⟨others, areDivided, same⟩ := except_bind_eq_ok.mp divided
    cases same
    obtain ⟨⟨content, isContent⟩, sharedPowers⟩ := common_spec isCommon
    obtain ⟨quotient, quotientMean, total⟩ := mean.dividedBy isContent
      (sharedPowers ▸ Monomial.commonPowers_distinct mean.distinct)
      (fun other member => sharedPowers ▸ Monomial.commonPowers_shared mean.distinct member)
      areDivided
    refine ⟨content * common.powers.value point, quotient, ?_, quotientMean, total⟩
    exact (powerExprs_denote bound arePowers).cons (denotes_const.mpr isContent)
  next =>
    cases remaining
    exact ⟨1, value, factorsDenote_nil.mpr rfl, mean, one_mul value⟩

/-- A sum that is not split keeps its value behind the factors in front. -/
theorem unsplit_denotes {scale quotient : ℚ} {product : Expr (Option ℚ)}
    (frontDenote : FactorsDenote valuation front scale)
    (restMean : MonomialsMean point rest quotient)
    (isProduct : (do
      let sum ← Monomial.sumExpr (factoring valuation.interpretation) rest
      let written ← Factorization.product (factoring valuation.interpretation) (front ++ [sum])
      return some written) = .ok (some product)) :
    Denotes valuation product (scale * quotient) := by
  obtain ⟨sum, isSum, remaining⟩ := except_bind_eq_ok.mp isProduct
  obtain ⟨written, isWritten, same⟩ := except_bind_eq_ok.mp remaining
  cases same
  have sumDenotes := FactorsDenote.single (sumExpr_denotes bound restMean isSum)
  exact product_denotes (frontDenote.append sumDenotes) isWritten

theorem ofMonomials?_denotes {requested? : Option String} {product : Expr (Option ℚ)}
    (mean : MonomialsMean point monomials value)
    (isProduct : Factorization.ofMonomials? (factoring valuation.interpretation) requested?
      monomials = .ok (some product)) : Denotes valuation product value := by
  unfold Factorization.ofMonomials? at isProduct
  obtain ⟨⟨front, rest⟩, taken, remaining⟩ := except_bind_eq_ok.mp isProduct
  obtain ⟨scale, quotient, frontDenote, restMean, rfl⟩ := takeCommon_spec bound mean taken
  dsimp only at remaining
  split at remaining
  next name coefficients isPolynomial =>
    obtain ⟨chosen, -, isRead⟩ := Option.bind_eq_some_iff.mp isPolynomial
    obtain ⟨read, areCoefficients, same⟩ := Option.bind_eq_some_iff.mp isRead
    cases same
    have polynomial := coefficientsIn?_mean restMean areCoefficients
    obtain ⟨split?, isSplit, written⟩ := except_bind_eq_ok.mp remaining
    split at written
    next factors =>
      obtain ⟨result, isResult, same⟩ := except_bind_eq_ok.mp written
      cases same
      have factorsDenote := factors?_denote bound polynomial isSplit
      exact product_denotes (frontDenote.append factorsDenote) isResult
    next => cases written
    next => exact unsplit_denotes bound frontDenote restMean written
  next =>
    cases front with
    | nil => cases remaining
    | cons => exact unsplit_denotes bound frontDenote restMean remaining

end Sums

section Expressions

variable {expression result : Expr (Option ℚ)} {value : ℚ} {requested? : Option String}

/-- Where all variables are bound, factoring an expression with literal whole exponents
keeps its value. -/
theorem factor_denotes (bound : ∀ name, valuation.bindings name = some (some (point name)))
    (exponents : expression.ExponentsAre IsWholeLiteral)
    (denotes : Denotes valuation expression value)
    (factored : (expression.factor (factoring valuation.interpretation) requested?).outcome =
      .ok result) : Denotes valuation result value := by
  unfold Expr.factor at factored
  obtain ⟨_, -, remaining⟩ := Traced.outcome_bind_eq_ok.mp factored
  obtain ⟨simplified, isSimplified, remaining⟩ := Traced.outcome_bind_eq_ok.mp remaining
  obtain ⟨tree, isTree, represents⟩ := simplify_represents exponents denotes
  obtain rfl : simplified = tree :=
    Except.ok.inj ((mapError_eq_ok.mp isSimplified).symm.trans isTree)
  obtain ⟨monomials?, areMonomials, remaining⟩ := Traced.outcome_bind_eq_ok.mp remaining
  have read := mapError_eq_ok.mp areMonomials
  split at remaining
  next first second rest =>
    obtain ⟨product?, isProduct, written⟩ := Traced.outcome_bind_eq_ok.mp remaining
    have mean := ofTerms?_mean bound (split_denotes represents.denotes) read
    cases product? with
    | none =>
        obtain ⟨_, -, same⟩ := Traced.outcome_bind_eq_ok.mp written
        cases same
        exact represents.denotes
    | some product =>
        cases written
        exact ofMonomials?_denotes bound mean (mapError_eq_ok.mp isProduct)
  next =>
    obtain ⟨_, -, same⟩ := Traced.outcome_bind_eq_ok.mp remaining
    cases same
    exact represents.denotes

/-- Expressions built from constants and variables by sums, differences, products,
negation and powers with literal natural exponents. -/
inductive IsPolynomial : Expr (Option ℚ) → Prop
  | const (number : ℚ) : IsPolynomial (.const (some number))
  | var (name : String) : IsPolynomial (.var name)
  | neg {operand} : IsPolynomial operand → IsPolynomial (-operand)
  | add {left right} : IsPolynomial left → IsPolynomial right → IsPolynomial (left + right)
  | sub {left right} : IsPolynomial left → IsPolynomial right → IsPolynomial (left - right)
  | mul {left right} : IsPolynomial left → IsPolynomial right → IsPolynomial (left * right)
  | pow {base} (exponent : ℕ) : IsPolynomial base →
      IsPolynomial (base ^ (.const (some (exponent : ℚ)) : Expr (Option ℚ)))

theorem IsPolynomial.exponentsAre (polynomial : IsPolynomial expression) :
    expression.ExponentsAre IsWholeLiteral := by
  induction polynomial with
  | const number => trivial
  | var name => trivial
  | neg _ ih => exact ih
  | add _ _ leftIH rightIH => exact .binary (by decide) leftIH rightIH
  | sub _ _ leftIH rightIH => exact .binary (by decide) leftIH rightIH
  | mul _ _ leftIH rightIH => exact .binary (by decide) leftIH rightIH
  | pow exponent _ ih => exact ⟨ih, trivial, fun _ => ⟨exponent, .inl rfl⟩⟩

/-- A polynomial is defined at every point. -/
theorem IsPolynomial.defined (polynomial : IsPolynomial expression)
    (bound : ∀ name, valuation.bindings name = some (some (point name))) :
    ∃ value, Denotes valuation expression value := by
  induction polynomial with
  | const number => exact ⟨number, denotes_const.mpr rfl⟩
  | var name => exact ⟨point name, (denotes_var bound).mpr rfl⟩
  | neg _ ih =>
      obtain ⟨value, denotes⟩ := ih
      exact ⟨-value, denotes.neg⟩
  | add _ _ leftIH rightIH =>
      obtain ⟨left, leftDenotes⟩ := leftIH
      obtain ⟨right, rightDenotes⟩ := rightIH
      exact ⟨left + right, leftDenotes.add rightDenotes⟩
  | sub _ _ leftIH rightIH =>
      obtain ⟨left, leftDenotes⟩ := leftIH
      obtain ⟨right, rightDenotes⟩ := rightIH
      exact ⟨left - right, leftDenotes.sub rightDenotes⟩
  | mul _ _ leftIH rightIH =>
      obtain ⟨left, leftDenotes⟩ := leftIH
      obtain ⟨right, rightDenotes⟩ := rightIH
      exact ⟨left * right, leftDenotes.mul rightDenotes⟩
  | pow exponent _ ih =>
      obtain ⟨base, baseDenotes⟩ := ih
      refine ⟨base ^ exponent, denotes_binary.mpr ⟨base, exponent, baseDenotes, ?_, ?_⟩⟩
      · exact denotes_const.mpr rfl
      · exact power_natCast_eq_some.mpr rfl

def valuationAt (interpretation : Interpretation) (point : String → ℚ) : Valuation where
  interpretation := interpretation
  functions := []
  strict := strict_nil
  bindings name := some (some (point name))

/-- In exact arithmetic the factored form of a polynomial has the value of the
polynomial at every point. -/
theorem factor_preserves_polynomial (interpretation : Interpretation)
    (polynomial : IsPolynomial expression)
    (factored : (expression.factor (factoring interpretation) requested?).outcome = .ok result)
    (point : String → ℚ) :
    ∃ value, Denotes (valuationAt interpretation point) expression value ∧
      Denotes (valuationAt interpretation point) result value := by
  have bound : ∀ name, (valuationAt interpretation point).bindings name =
      some (some (point name)) := fun _ => rfl
  obtain ⟨value, denotes⟩ := polynomial.defined bound
  exact ⟨value, denotes, factor_denotes bound polynomial.exponentsAre denotes factored⟩

end Expressions

section Instance

/-- Two terms with a common factor; a difference of squares is left. -/
def commonAndSquares : Expr (Option ℚ) :=
  .const (some 2) * (.var "x" ^ (.const (some (3 : ℕ)) : Expr (Option ℚ))) * .var "y" -
    .const (some 2) * .var "x" * .var "y"

def commonAndLinear : Expr (Option ℚ) :=
  .const (some 2) * .var "x" * .var "y" * (.var "x" - .const (some 1)) *
    (.var "x" + .const (some 1))

theorem isPolynomial_commonAndSquares : IsPolynomial commonAndSquares :=
  .sub (.mul (.mul (.const 2) (.pow 3 (.var "x"))) (.var "y"))
    (.mul (.mul (.const 2) (.var "x")) (.var "y"))

theorem factor_commonAndSquares :
    (commonAndSquares.factor (factoring atThree.interpretation) none).outcome =
      .ok commonAndLinear := by
  have same : (commonAndSquares.factor (factoring atThree.interpretation) none).outcome.toOption.any
      (Expr.sameBy (fun first second => decide (first = second)) commonAndLinear) = true := by
    decide +kernel
  cases outcome : (commonAndSquares.factor (factoring atThree.interpretation) none).outcome with
  | error fault =>
      rw [outcome] at same
      cases same
  | ok tree =>
      rw [outcome] at same
      rw [Expr.eq_of_sameBy (fun _ _ equal => of_decide_eq_true equal) same]

theorem factor_preserves_commonAndSquares :
    IsPolynomial commonAndSquares ∧
      (commonAndSquares.factor (factoring atThree.interpretation) none).outcome =
        .ok commonAndLinear ∧
      ∃ value, Denotes (valuationAt atThree.interpretation fun _ => 3) commonAndSquares value ∧
        Denotes (valuationAt atThree.interpretation fun _ => 3) commonAndLinear value :=
  ⟨isPolynomial_commonAndSquares, factor_commonAndSquares,
    factor_preserves_polynomial atThree.interpretation isPolynomial_commonAndSquares
      factor_commonAndSquares fun _ => 3⟩

end Instance

end Exact

end ExprCalculus
