import ExprCalculus.Proofs.Polynomial.Coefficients
import Mathlib.Tactic.LinearCombination

/-!
# Splitting polynomials

In exact arithmetic the factors that a polynomial is split into multiply to it: by its
roots, as a difference of two squares, or by a root among the fixed fractions.
-/

namespace ExprCalculus

namespace Exact

variable {valuation : Valuation} {point : String → ℚ} {name : String}

/-- A splitting whose factors and cofactors have the given product. -/
def Splits (valuation : Valuation) (x : ℚ) {length : ℕ}
    (splitting : Factorization.Splitting (Option ℚ) length) (value : ℚ) : Prop :=
  ∃ scale values, FactorsDenote valuation splitting.factors scale ∧
    List.Forall₂ (fun cofactor => CoefficientsMean x cofactor.val) splitting.cofactors values ∧
    scale * values.prod = value

section Fractions

variable {interpretation : Interpretation}

theorem fractionAt_eq {numerator : Option ℚ} {denominator root : ℚ}
    (isRoot : (do
      (factoring interpretation).fraction?
        (← (factoring interpretation).quotient numerator (some denominator))) =
      .ok (some root)) :
    denominator ≠ 0 ∧ ∃ number, numerator = some number ∧ root = number / denominator := by
  obtain ⟨quotient, isQuotient, isFraction⟩ := except_bind_eq_ok.mp isRoot
  obtain rfl := factoring_fraction?_eq_ok isFraction
  cases numerator with
  | none =>
      change (if some denominator = some 0 then Except.error NumericFault.divisionByZero
        else .ok none) = _ at isQuotient
      split at isQuotient <;> cases isQuotient
  | some number =>
      obtain ⟨nonzero, same⟩ := factoring_quotient_eq_ok.mp isQuotient
      exact ⟨nonzero, number, rfl, Option.some.inj same⟩

theorem mul_den_sub_num (root x : ℚ) : root.den * x - root.num = root.den * (x - root) := by
  rw [mul_sub, mul_comm (root.den : ℚ) root, Rat.mul_den_eq_num]

end Fractions

section Roots

variable (bound : ∀ name, valuation.bindings name = some (some (point name)))

include bound

theorem linearFactor_denotes (root : ℚ) :
    Denotes valuation
      (Factorization.linearFactor (factoring valuation.interpretation) name root)
      (root.den * (point name - root)) := by
  have variableDenotes : Denotes valuation (.var name) (point name) := (denotes_var bound).mpr rfl
  have leading : Denotes valuation (if root.den = 1 then .var name else
      .const ((factoring valuation.interpretation).ofInt root.den) * .var name)
      (root.den * point name) := by
    split
    next isOne => rwa [isOne, Nat.cast_one, one_mul]
    next => exact Denotes.mul (denotes_const.mpr rfl) variableDenotes
  unfold Factorization.linearFactor
  rw [← mul_den_sub_num]
  dsimp only
  split
  next isZero => rwa [isZero, Int.cast_zero, sub_zero]
  split
  next => exact leading.sub (denotes_const.mpr rfl)
  next =>
    rw [sub_eq_add_neg, ← Int.cast_neg]
    exact leading.add (denotes_const.mpr rfl)

/-- The square of a linear factor, for a quadratic polynomial with discriminant zero. -/
theorem doubleRoot_denote {c b a root : ℚ} {scale : Option ℚ} (leading : a ≠ 0)
    (discriminant : b * b - 4 * a * c = 0) (isRoot : root = -b / (2 * a))
    (isScale : (factoring valuation.interpretation).quotient (some a)
      (some ((root.den * root.den : ℕ) : ℤ)) = .ok scale) :
    FactorsDenote valuation
      [.const scale, (Factorization.linearFactor (factoring valuation.interpretation) name root) ^
        (.const (some (2 : ℤ)) : Expr (Option ℚ))]
      (polynomialValue (point name) [c, b, a]) := by
  obtain ⟨nonzero, rfl⟩ := factoring_quotient_eq_ok.mp isScale
  have square : Denotes valuation
      ((Factorization.linearFactor (factoring valuation.interpretation) name root) ^
        (.const (some (2 : ℤ)) : Expr (Option ℚ)))
      ((root.den * (point name - root)) ^ 2) := by
    refine denotes_binary.mpr ⟨_, _, linearFactor_denotes bound root, denotes_const.mpr rfl, ?_⟩
    exact power_natCast_eq_some.mpr rfl
  have constant : Denotes valuation (.const (some (a / ((root.den * root.den : ℕ) : ℤ))))
      (a / ((root.den * root.den : ℕ) : ℤ)) := denotes_const.mpr rfl
  apply ((FactorsDenote.single square).cons constant).congr
  have denominator : (root.den : ℚ) ≠ 0 := Nat.cast_ne_zero.mpr root.den_nz
  have constantTerm : c = b * b / (4 * a) := by
    rw [eq_div_iff (by simpa using leading)]
    linear_combination -discriminant
  simp only [polynomialValue_cons, polynomialValue_nil, constantTerm]
  push_cast
  field_simp
  rw [isRoot]
  field_simp
  ring

/-- The linear factors of the two roots of a quadratic polynomial, in either order. -/
theorem twoRoots_denote {c b a first second : ℚ} {scale : Option ℚ} (leading : a ≠ 0)
    (sum : first + second = -b / a) (product : first * second = c / a)
    (isScale : (factoring valuation.interpretation).quotient (some a)
      (some ((first.den * second.den : ℕ) : ℤ)) = .ok scale) :
    FactorsDenote valuation
      [.const scale, Factorization.linearFactor (factoring valuation.interpretation) name first,
        Factorization.linearFactor (factoring valuation.interpretation) name second]
      (polynomialValue (point name) [c, b, a]) := by
  obtain ⟨nonzero, rfl⟩ := factoring_quotient_eq_ok.mp isScale
  have constant : Denotes valuation (.const (some (a / ((first.den * second.den : ℕ) : ℤ))))
      (a / ((first.den * second.den : ℕ) : ℤ)) := denotes_const.mpr rfl
  apply (((FactorsDenote.single (linearFactor_denotes bound second)).cons
    (linearFactor_denotes bound first)).cons constant).congr
  have firstDenominator : (first.den : ℚ) ≠ 0 := Nat.cast_ne_zero.mpr first.den_nz
  have secondDenominator : (second.den : ℚ) ≠ 0 := Nat.cast_ne_zero.mpr second.den_nz
  have linear : b = -(a * (first + second)) := by
    rw [sum]
    field_simp
  have constantTerm : c = a * (first * second) := by
    rw [product]
    field_simp
  simp only [polynomialValue_cons, polynomialValue_nil]
  rw [linear, constantTerm]
  push_cast
  field_simp
  ring

theorem quadratic?_denote {c b a : ℚ} {factors : List (Expr (Option ℚ))}
    (areFactors : Factorization.quadratic? (factoring valuation.interpretation) name (some c)
      (some b) (some a) = .ok (some factors)) :
    FactorsDenote valuation factors (polynomialValue (point name) [c, b, a]) := by
  unfold Factorization.quadratic? at areFactors
  dsimp only at areFactors
  split at areFactors
  next => cases areFactors
  split at areFactors
  next vanishes =>
    obtain ⟨_ | root, isRoot, rest⟩ := except_bind_eq_ok.mp areFactors
    · cases rest
    obtain ⟨scale, isScale, same⟩ := except_bind_eq_ok.mp rest
    cases same
    obtain ⟨nonzero, number, isNumber, rfl⟩ := fractionAt_eq isRoot
    cases isNumber
    have discriminant : b * b - 4 * a * c = 0 := by
      have isZero := of_decide_eq_true vanishes
      rw [factoring_zero] at isZero
      exact Option.some.inj isZero
    exact doubleRoot_denote bound (right_ne_zero_of_mul nonzero) discriminant rfl isScale
  next =>
    obtain ⟨distance, isDistance, rest⟩ := except_bind_eq_ok.mp areFactors
    obtain ⟨_ | upper, isUpper, rest⟩ := except_bind_eq_ok.mp rest
    · obtain ⟨lower?, -, rest⟩ := except_bind_eq_ok.mp rest
      cases rest
    obtain ⟨_ | lower, isLower, rest⟩ := except_bind_eq_ok.mp rest
    · cases rest
    obtain ⟨nonzero, upperNumber, isUpperNumber, rfl⟩ := fractionAt_eq isUpper
    obtain ⟨-, lowerNumber, isLowerNumber, rfl⟩ := fractionAt_eq isLower
    cases distance with
    | none => cases isUpperNumber
    | some distance =>
        have leading : a ≠ 0 := right_ne_zero_of_mul nonzero
        have square : distance ^ 2 = b * b - 4 * a * c := factoring_root_eq_ok isDistance
        obtain rfl : -b + distance = upperNumber := Option.some.inj isUpperNumber
        obtain rfl : -b - distance = lowerNumber := Option.some.inj isLowerNumber
        have sum : (-b + distance) / (2 * a) + (-b - distance) / (2 * a) = -b / a := by
          field_simp
          ring
        have product : (-b + distance) / (2 * a) * ((-b - distance) / (2 * a)) = c / a := by
          field_simp
          linear_combination -square
        -- The larger root comes first, whichever of the two it is.
        dsimp only at rest
        split at rest
        all_goals
          obtain ⟨scale, isScale, same⟩ := except_bind_eq_ok.mp rest
          cases same
        · exact twoRoots_denote bound leading ((add_comm ..).trans sum)
            ((mul_comm ..).trans product) isScale
        · exact twoRoots_denote bound leading sum product isScale

end Roots

section Squares

variable {x : ℚ} {interpretation : Interpretation} {numbers : List ℚ}

theorem exists_outer (long : 2 ≤ numbers.length) :
    ∃ first inner last, numbers = first :: (inner ++ [last]) := by
  cases numbers with
  | nil => simp at long
  | cons first rest =>
      rcases List.eq_nil_or_concat rest with rfl | ⟨inner, last, rfl⟩
      · simp at long
      · exact ⟨first, inner, last, by rw [List.concat_eq_append]⟩

theorem polynomialValue_outer (first last : ℚ) {inner : List ℚ}
    (vanish : ∀ number ∈ inner, number = 0) :
    polynomialValue x (first :: (inner ++ [last])) = first + x ^ (inner.length + 1) * last := by
  rw [polynomialValue_cons, polynomialValue_append, polynomialValue_of_zeros vanish,
    polynomialValue_cons, polynomialValue_nil, pow_succ]
  ring

theorem squareRoot_mean (interpretation : Interpretation) (x : ℚ) {half : ℕ} (positive : 0 < half)
    (constant leading : ℤ) :
    CoefficientsMean x
      ((factoring interpretation).ofInt constant ::
        (List.replicate (half - 1) (factoring interpretation).zero ++
          [(factoring interpretation).ofInt leading]))
      (constant + x ^ half * leading) := by
  refine ⟨constant :: (List.replicate (half - 1) 0 ++ [(leading : ℚ)]), by simp, ?_⟩
  have zeros : ∀ number ∈ List.replicate (half - 1) (0 : ℚ), number = 0 :=
    fun number member => List.eq_of_mem_replicate member
  rw [polynomialValue_outer _ _ zeros, List.length_replicate, Nat.sub_add_cancel positive]

/-- Numbers of opposite signs make a difference of squares, up to the sign of the
leading one. -/
theorem difference_of_squares {first last leadingRoot constantRoot : ℚ}
    (opposite : last * first < 0)
    (isLeadingRoot : leadingRoot ^ 2 = |last|) (isConstantRoot : constantRoot ^ 2 = |first|)
    (power : ℚ) :
    (if last < 0 then -1 else 1) * ((-constantRoot + power * leadingRoot) *
      (constantRoot + power * leadingRoot)) = first + power ^ 2 * last := by
  split
  next negative =>
    have positive : 0 < first := pos_of_mul_neg_right opposite negative.le
    rw [abs_of_neg negative] at isLeadingRoot
    rw [abs_of_pos positive] at isConstantRoot
    linear_combination isConstantRoot - power ^ 2 * isLeadingRoot
  next nonnegative =>
    have negative : first < 0 := neg_of_mul_neg_right opposite (not_lt.mp nonnegative)
    rw [abs_of_nonneg (not_lt.mp nonnegative)] at isLeadingRoot
    rw [abs_of_neg negative] at isConstantRoot
    linear_combination power ^ 2 * isLeadingRoot - isConstantRoot

theorem squareRoots_split (valuation : Valuation) (x power : ℚ) {first last : ℚ}
    {leadingRoot constantRoot : ℤ} {length : ℕ} (opposite : last * first < 0)
    (isLeadingRoot : (leadingRoot : ℚ) ^ 2 = |last|)
    (isConstantRoot : (constantRoot : ℚ) ^ 2 = |first|)
    {minus plus : { coefficients : List (Option ℚ) // coefficients.length < length }}
    (minusMean : CoefficientsMean x minus.val ((-constantRoot : ℤ) + power * leadingRoot))
    (plusMean : CoefficientsMean x plus.val (constantRoot + power * leadingRoot)) :
    Splits valuation x
      ⟨if (factoring valuation.interpretation).isNegative (some last) then
        [.const ((factoring valuation.interpretation).ofInt (-1))] else [], [minus, plus]⟩
      (first + power ^ 2 * last) := by
  refine ⟨if last < 0 then -1 else 1, _, ?_, .cons minusMean (.cons plusMean .nil), ?_⟩
  · change FactorsDenote valuation (if decide (last < 0) then _ else _) _
    by_cases negative : last < 0
    · rw [if_pos negative, if_pos (decide_eq_true negative)]
      refine FactorsDenote.single (denotes_const.mpr ?_)
      rw [factoring_ofInt, Int.cast_neg, Int.cast_one]
    · rw [if_neg negative, if_neg (by simpa using negative)]
      exact factorsDenote_nil.mpr rfl
  · rw [List.prod_cons, List.prod_singleton, Int.cast_neg]
    exact difference_of_squares opposite isLeadingRoot isConstantRoot power

theorem inner_vanishes {first last : ℚ} {inner : List ℚ}
    (noInner : ¬ ((first :: (inner ++ [last])).map some).tail.dropLast.any
      (fun coefficient => (factoring interpretation).apart coefficient
        (factoring interpretation).zero) = true) : ∀ number ∈ inner, number = 0 := by
  intro number member
  by_contra nonzero
  apply noInner
  rw [List.map_cons, List.tail_cons, List.map_append, List.map_singleton, List.dropLast_concat,
    List.any_map, List.any_eq_true]
  refine ⟨number, member, decide_eq_true ?_⟩
  rw [factoring_zero]
  simpa using nonzero

/-- The two polynomials that the difference of two squares splits into. -/
theorem squares?_splits (valuation : Valuation)
    {splitting : Factorization.Splitting (Option ℚ) (numbers.map some).length}
    (areSquares : Factorization.squares? (factoring valuation.interpretation)
      (numbers.map some) = .ok (some splitting)) :
    Splits valuation x splitting (polynomialValue x numbers) := by
  unfold Factorization.squares? at areSquares
  dsimp only at areSquares
  split at areSquares
  rotate_left
  · cases areSquares
  next leading constant isLast isHead =>
  split at areSquares
  rotate_left
  · cases areSquares
  next even =>
  split at areSquares
  · cases areSquares
  next outer =>
  obtain ⟨_ | leadingRoot, isLeadingRoot, rest⟩ := except_bind_eq_ok.mp areSquares
  · cases rest
  obtain ⟨_ | constantRoot, isConstantRoot, same⟩ := except_bind_eq_ok.mp rest
  · cases same
  obtain ⟨first, inner, last, rfl⟩ : ∃ first inner last, numbers = first :: (inner ++ [last]) := by
    apply exists_outer
    rw [List.length_map] at even
    omega
  obtain rfl : some first = constant := Option.some.inj isHead
  obtain rfl : some last = leading := by
    rw [List.map_cons, List.map_append, List.getLast?_cons, List.map_singleton,
      List.getLast?_concat] at isLast
    exact Option.some.inj isLast
  rw [Bool.or_eq_true, not_or, Bool.not_eq_true', Bool.not_eq_false] at outer
  obtain ⟨noInner, isOpposite⟩ := outer
  have halves : inner.length + 1 =
      2 * ((List.map some (first :: (inner ++ [last]))).length / 2) := by
    simp only [List.length_map, List.length_cons, List.length_append, List.length_nil] at even ⊢
    omega
  rw [polynomialValue_outer first last (inner_vanishes noInner), halves, pow_mul']
  cases same
  exact squareRoots_split valuation x _ (of_decide_eq_true isOpposite)
    (factoring_wholeRoot?_eq_ok isLeadingRoot) (factoring_wholeRoot?_eq_ok isConstantRoot)
    (squareRoot_mean _ x even.2 _ _) (squareRoot_mean _ x even.2 _ _)

end Squares

section RationalRoots

variable {interpretation : Interpretation} {numbers : List ℚ}

theorem firstRoot?_spec {fractions : List ℚ} {root : ℚ} {number : Option ℚ}
    (isFirst : Factorization.firstRoot? (factoring interpretation) (numbers.map some) fractions =
      .ok (some (root, number))) :
    number = some root ∧ polynomialValue root numbers = 0 := by
  induction fractions with
  | nil => cases isFirst
  | cons fraction others ih =>
      obtain ⟨converted, isConverted, rest⟩ := except_bind_eq_ok.mp isFirst
      cases isConverted
      obtain ⟨value, isValue, tested⟩ := except_bind_eq_ok.mp rest
      split at tested
      next negligible =>
        cases tested
        rw [valueAt_eq isValue] at negligible
        exact ⟨rfl, Option.some.inj (of_decide_eq_true negligible)⟩
      next => exact ih tested

theorem rationalRoot?_splits (bound : ∀ name, valuation.bindings name = some (some (point name)))
    {splitting : Factorization.Splitting (Option ℚ) (numbers.map some).length}
    (isSplitting : Factorization.rationalRoot? (factoring valuation.interpretation) name
      (numbers.map some) = .ok (some splitting)) :
    Splits valuation (point name) splitting (polynomialValue (point name) numbers) := by
  obtain ⟨first, isFirst, rest⟩ := except_bind_eq_ok.mp isSplitting
  cases first with
  | none => cases rest
  | some first =>
      obtain ⟨root, number⟩ := first
      obtain ⟨rfl, vanishes⟩ := firstRoot?_spec isFirst
      obtain ⟨quotient, isQuotient, divides⟩ :=
        deflate_spec valuation.interpretation root numbers
      have denominator : ((root.den : ℤ) : ℚ) ≠ 0 :=
        Int.cast_ne_zero.mpr (Int.natCast_ne_zero.mpr root.den_nz)
      dsimp only at rest
      split at rest
      next shorter =>
        cases rest
        refine ⟨_, _, FactorsDenote.single (linearFactor_denotes bound root),
          .cons ⟨quotient.map (· / (root.den : ℤ)), ?_, rfl⟩ .nil, ?_⟩
        · dsimp only
          rw [isQuotient, List.map_map, List.map_map]
          apply List.map_congr_left
          intro coefficient _
          exact factoring_div denominator
        · rw [List.prod_singleton, polynomialValue_map_div, divides, vanishes, zero_add,
            Int.cast_natCast]
          rw [Int.cast_natCast] at denominator
          field_simp
      next => cases rest

end RationalRoots

section Steps

variable {numbers : List ℚ}

theorem split?_splits (bound : ∀ name, valuation.bindings name = some (some (point name)))
    {splitting : Factorization.Splitting (Option ℚ) (numbers.map some).length}
    (isSplitting : Factorization.split? (factoring valuation.interpretation) name
      (numbers.map some) = .ok (some splitting)) :
    Splits valuation (point name) splitting (polynomialValue (point name) numbers) := by
  rcases numbers with _ | ⟨c, _ | ⟨b, _ | ⟨a, _ | ⟨d, rest⟩⟩⟩⟩
  · cases isSplitting
  · cases isSplitting
  · cases isSplitting
  · obtain ⟨factors?, areFactors, same⟩ := except_bind_eq_ok.mp isSplitting
    obtain ⟨factors, rfl, rfl⟩ := Option.map_eq_some_iff.mp (Except.ok.inj same)
    refine ⟨_, [], quadratic?_denote bound areFactors, .nil, ?_⟩
    rw [List.prod_nil, mul_one]
  · have long : 3 < ((c :: b :: a :: d :: rest).map some).length := by simp
    obtain ⟨squares?, areSquares, tried⟩ :=
      except_bind_eq_ok.mp ((if_pos (e := .ok none) long).symm.trans isSplitting)
    cases squares? with
    | none => exact rationalRoot?_splits bound tried
    | some squares =>
        cases tried
        exact squares?_splits valuation areSquares

/-- The factors of several polynomials are factors of their product. -/
theorem parts_denote {x : ℚ} {length : ℕ}
    {cofactors : List { coefficients : List (Option ℚ) // coefficients.length < length }}
    {image : { coefficients : List (Option ℚ) // coefficients.length < length } →
      Except NumericFault (List (Expr (Option ℚ)))}
    {parts : List (List (Expr (Option ℚ)))} {values : List ℚ}
    (factored : ∀ cofactor part value, CoefficientsMean x cofactor.val value →
      image cofactor = .ok part → FactorsDenote valuation part value)
    (mean : List.Forall₂ (fun cofactor => CoefficientsMean x cofactor.val) cofactors values)
    (areParts : cofactors.mapM image = .ok parts) :
    FactorsDenote valuation parts.flatten values.prod := by
  rw [mapM_eq_ok] at areParts
  induction mean generalizing parts with
  | nil =>
      cases areParts
      exact factorsDenote_nil.mpr rfl
  | cons firstMeans _ ih =>
      cases areParts with
      | cons isFirst areOthers =>
          rw [List.flatten_cons, List.prod_cons]
          exact (factored _ _ _ firstMeans isFirst).append (ih areOthers)

/-- The factors of a polynomial multiply to it. -/
theorem factors?_denote (bound : ∀ name, valuation.bindings name = some (some (point name)))
    {coefficients : List (Option ℚ)} {factors : List (Expr (Option ℚ))} {value : ℚ}
    (mean : CoefficientsMean (point name) coefficients value)
    (areFactors : Factorization.factors? (factoring valuation.interpretation) name coefficients =
      .ok (some factors)) : FactorsDenote valuation factors value := by
  induction length : coefficients.length using Nat.strong_induction_on
    generalizing coefficients factors value with
  | _ length ih =>
      obtain ⟨numbers, rfl, rfl⟩ := mean
      unfold Factorization.factors? at areFactors
      obtain ⟨splitting?, isSplitting, rest⟩ := except_bind_eq_ok.mp areFactors
      cases splitting? with
      | none => cases rest
      | some splitting =>
          obtain ⟨scale, values, denote, cofactorsMean, total⟩ := split?_splits bound isSplitting
          obtain ⟨parts, areParts, same⟩ := except_bind_eq_ok.mp rest
          cases same
          rw [← total]
          refine denote.append (parts_denote ?_ cofactorsMean areParts)
          intro cofactor part other means isPart
          obtain ⟨found, isFound, remaining⟩ := except_bind_eq_ok.mp isPart
          cases found with
          | some factors =>
              cases remaining
              exact ih _ (length ▸ cofactor.property) means isFound rfl
          | none =>
              obtain ⟨polynomial, isPolynomial, same⟩ := except_bind_eq_ok.mp remaining
              cases same
              obtain ⟨others, isOthers, rfl⟩ := means
              rw [isOthers] at isPolynomial
              exact FactorsDenote.single (polynomialExpr_denotes bound isPolynomial)

end Steps

end Exact

end ExprCalculus
