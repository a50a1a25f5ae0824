import ExprCalculus.Polynomial.Factorization
import ExprCalculus.Proofs.Polynomial.Monomials
import Mathlib.Algebra.BigOperators.Group.Finset.Piecewise

/-!
# Values of coefficients

A list of ascending coefficients is a polynomial, and has a value at every number.
Collecting the coefficients of monomials, evaluating, dividing by a linear polynomial
and writing as an expression are described by that value.
-/

namespace ExprCalculus

namespace Exact

/-- The value of the polynomial with the given ascending coefficients. -/
def polynomialValue (x : ℚ) : List ℚ → ℚ
  | [] => 0
  | coefficient :: rest => coefficient + x * polynomialValue x rest

/-- Coefficients are defined, and their polynomial has the given value. -/
def CoefficientsMean (x : ℚ) (coefficients : List (Option ℚ)) (value : ℚ) : Prop :=
  ∃ numbers : List ℚ, coefficients = numbers.map some ∧ polynomialValue x numbers = value

section Lists

variable {x : ℚ}

@[simp]
theorem polynomialValue_nil : polynomialValue x [] = 0 := rfl

@[simp]
theorem polynomialValue_cons (coefficient : ℚ) (rest : List ℚ) :
    polynomialValue x (coefficient :: rest) = coefficient + x * polynomialValue x rest := rfl

theorem polynomialValue_append (first second : List ℚ) :
    polynomialValue x (first ++ second) =
      polynomialValue x first + x ^ first.length * polynomialValue x second := by
  induction first with
  | nil => simp
  | cons coefficient rest ih =>
      rw [List.cons_append, polynomialValue_cons, ih, polynomialValue_cons, List.length_cons,
        pow_succ]
      ring

theorem polynomialValue_of_zeros {zeros : List ℚ} (vanish : ∀ number ∈ zeros, number = 0) :
    polynomialValue x zeros = 0 := by
  induction zeros with
  | nil => rfl
  | cons first rest ih =>
      rw [List.forall_mem_cons] at vanish
      simp [vanish.1, ih vanish.2]

theorem polynomialValue_map_div (coefficients : List ℚ) (divisor : ℚ) :
    polynomialValue x (coefficients.map (· / divisor)) =
      polynomialValue x coefficients / divisor := by
  induction coefficients with
  | nil => simp
  | cons coefficient rest ih =>
      rw [List.map_cons, polynomialValue_cons, ih, polynomialValue_cons, add_div, mul_div_assoc]

theorem polynomialValue_map_range (coefficientOf : ℕ → ℚ) (length : ℕ) :
    polynomialValue x ((List.range length).map coefficientOf) =
      ∑ power ∈ Finset.range length, coefficientOf power * x ^ power := by
  induction length with
  | zero => rfl
  | succ length ih =>
      rw [List.range_succ, List.map_append, polynomialValue_append, ih, Finset.sum_range_succ]
      simp [mul_comm]

theorem sum_zipIdx (coefficients : List ℚ) (start : ℕ) :
    ((coefficients.zipIdx start).map fun entry => entry.1 * x ^ entry.2).sum =
      x ^ start * polynomialValue x coefficients := by
  induction coefficients generalizing start with
  | nil => simp
  | cons coefficient rest ih =>
      rw [List.zipIdx_cons, List.map_cons, List.sum_cons, ih, polynomialValue_cons, pow_succ]
      ring

end Lists

section Collecting

variable {interpretation : Interpretation} {point : String → ℚ} {name : String}
  {monomials : List (Monomial (Option ℚ))} {value : ℚ}

def coefficientAt (name : String) (monomials : List (Monomial (Option ℚ))) (power : ℕ) : ℚ :=
  ((monomials.filter fun monomial => monomial.powers.of name = power).map
    (·.coefficient.getD 0)).sum

theorem foldl_add_coefficients (defined : ∀ monomial ∈ monomials, monomial.coefficient.isSome)
    (start : ℚ) :
    monomials.foldl (fun sum monomial => (factoring interpretation).add sum monomial.coefficient)
      (some start) = some (start + (monomials.map (·.coefficient.getD 0)).sum) := by
  induction monomials generalizing start with
  | nil => simp
  | cons monomial rest ih =>
      rw [List.forall_mem_cons] at defined
      obtain ⟨coefficient, isCoefficient⟩ := Option.isSome_iff_exists.mp defined.1
      rw [List.foldl_cons, isCoefficient, factoring_add, ih defined.2, List.map_cons,
        List.sum_cons, isCoefficient, Option.getD_some, add_assoc]

/-- The terms of a sum, collected by their powers. -/
theorem sum_coefficientAt {length : ℕ} (x : ℚ)
    (bounded : ∀ monomial ∈ monomials, monomial.powers.of name < length) :
    ∑ power ∈ Finset.range length, coefficientAt name monomials power * x ^ power =
      (monomials.map fun monomial =>
        monomial.coefficient.getD 0 * x ^ monomial.powers.of name).sum := by
  induction monomials with
  | nil => simp [coefficientAt]
  | cons monomial rest ih =>
      rw [List.forall_mem_cons] at bounded
      have step (power : ℕ) : coefficientAt name (monomial :: rest) power * x ^ power =
          (if monomial.powers.of name = power then monomial.coefficient.getD 0 * x ^ power else 0) +
            coefficientAt name rest power * x ^ power := by
        unfold coefficientAt
        rw [List.filter_cons]
        by_cases same : monomial.powers.of name = power
        · simp [same, add_mul]
        · simp [same]
      simp only [step]
      rw [Finset.sum_add_distrib, ih bounded.2, Finset.sum_ite_eq,
        if_pos (Finset.mem_range.mpr bounded.1), List.map_cons, List.sum_cons]

theorem sum_of_mean (mean : MonomialsMean point monomials value)
    (single : ∀ monomial ∈ monomials, ∀ entry ∈ monomial.powers, entry.1 = name) :
    (monomials.map fun monomial =>
      monomial.coefficient.getD 0 * point name ^ monomial.powers.of name).sum = value := by
  obtain ⟨values, means, rfl⟩ := mean
  induction means with
  | nil => rfl
  | cons first _ ih =>
      rw [List.forall_mem_cons] at single
      obtain ⟨distinct, coefficient, isCoefficient, rfl⟩ := first
      rw [List.map_cons, List.sum_cons, List.sum_cons, ih single.2, isCoefficient,
        distinct.value_of_single single.1, Option.getD_some]

theorem MonomialsMean.defined (mean : MonomialsMean point monomials value) :
    ∀ monomial ∈ monomials, monomial.coefficient.isSome := by
  obtain ⟨values, means, -⟩ := mean
  induction means with
  | nil => exact List.forall_mem_nil _
  | cons first _ ih =>
      obtain ⟨-, coefficient, isCoefficient, -⟩ := first
      exact List.forall_mem_cons.mpr ⟨Option.isSome_iff_exists.mpr ⟨_, isCoefficient⟩, ih⟩

/-- The coefficients of a sum of monomials in one variable. -/
theorem coefficientsIn?_mean {coefficients : List (Option ℚ)}
    (mean : MonomialsMean point monomials value)
    (areCoefficients : Monomial.coefficientsIn? (factoring interpretation) name monomials =
      some coefficients) :
    CoefficientsMean (point name) coefficients value := by
  obtain ⟨all, same⟩ := Option.ite_none_right_eq_some.mp areCoefficients
  obtain rfl := Option.some.inj same
  have single : ∀ monomial ∈ monomials, ∀ entry ∈ monomial.powers, entry.1 = name := by
    intro monomial member entry isEntry
    have same := List.all_eq_true.mp (List.all_eq_true.mp all monomial member)
    exact of_decide_eq_true (same entry isEntry)
  have bounded := (Monomial.le_foldl_max name monomials 0).2
  refine ⟨(List.range (monomials.foldl (fun highest monomial =>
    max highest (monomial.powers.of name)) 0 + 1)).map (coefficientAt name monomials), ?_, ?_⟩
  · rw [List.map_map]
    apply List.map_congr_left
    intro power _
    rw [factoring_zero, foldl_add_coefficients, zero_add]
    · rfl
    · exact fun monomial member => mean.defined monomial (List.mem_of_mem_filter member)
  · rw [polynomialValue_map_range, sum_coefficientAt, sum_of_mean mean single]
    exact fun monomial member => Nat.lt_succ_of_le (bounded monomial member)

end Collecting

section Evaluation

variable {interpretation : Interpretation} {numbers : List ℚ} {number : ℚ}

theorem foldlM_value {result : Option ℚ} (start : ℚ) (first : ℕ)
    (isResult : ((numbers.map some).zipIdx first).foldlM (fun sum entry => do
      let power ← (factoring interpretation).power (some number) entry.2
      return (factoring interpretation).add sum ((factoring interpretation).mul entry.1 power))
        (some start) = .ok result) :
    result = some (start + number ^ first * polynomialValue number numbers) := by
  induction numbers generalizing start first with
  | nil =>
      cases isResult
      simp
  | cons coefficient rest ih =>
      rw [ih _ _ isResult, polynomialValue_cons, pow_succ]
      congr 1
      ring

/-- Evaluation gives the value of the polynomial. -/
theorem valueAt_eq {result : Option ℚ}
    (isResult : Factorization.valueAt (factoring interpretation) (some number)
      (numbers.map some) = .ok result) : result = some (polynomialValue number numbers) := by
  unfold Factorization.valueAt at isResult
  rw [factoring_zero] at isResult
  simpa using foldlM_value 0 0 isResult

theorem suffixValues_spec (interpretation : Interpretation) (root : ℚ) (numbers : List ℚ) :
    ∃ values : List ℚ, Factorization.suffixValues (factoring interpretation) (some root) (numbers.map some) =
        values.map some ∧
      ∀ x, polynomialValue x numbers =
        values.headD 0 + (x - root) * polynomialValue x values.tail := by
  induction numbers with
  | nil => exact ⟨[], rfl, by simp⟩
  | cons coefficient rest ih =>
      obtain ⟨values, areValues, divides⟩ := ih
      refine ⟨(coefficient + root * values.headD 0) :: values, ?_, ?_⟩
      · rw [List.map_cons, Factorization.suffixValues, areValues, List.map_cons]
        cases values <;> simp
      · intro x
        rw [polynomialValue_cons, divides x, List.headD_cons, List.tail_cons]
        cases values with
        | nil => simp
        | cons head tail =>
            rw [polynomialValue_cons, List.headD_cons, List.tail_cons]
            ring

/-- Division by `x - root` leaves the value at the root as its remainder. -/
theorem deflate_spec (interpretation : Interpretation) (root : ℚ) (numbers : List ℚ) :
    ∃ quotient : List ℚ, Factorization.deflate (factoring interpretation) (some root) (numbers.map some) =
        quotient.map some ∧
      ∀ x, polynomialValue x numbers =
        polynomialValue root numbers + (x - root) * polynomialValue x quotient := by
  cases numbers with
  | nil => exact ⟨[], rfl, by simp⟩
  | cons coefficient rest =>
      obtain ⟨values, areValues, divides⟩ := suffixValues_spec interpretation root rest
      refine ⟨values, areValues, ?_⟩
      intro x
      have atRoot := divides root
      rw [sub_self, zero_mul, add_zero] at atRoot
      rw [polynomialValue_cons, polynomialValue_cons, atRoot, divides x]
      cases values with
      | nil => simp
      | cons head tail =>
          rw [polynomialValue_cons, List.headD_cons, List.tail_cons]
          ring

end Evaluation

section Writing

variable {valuation : Valuation} {point : String → ℚ}
  (bound : ∀ name, valuation.bindings name = some (some (point name)))

def entryValue (x : ℚ) (entry : Option ℚ × ℕ) : ℚ :=
  entry.1.getD 0 * x ^ entry.2

/-- Leaving out vanishing coefficients keeps the sum. -/
theorem sum_filter_entries (interpretation : Interpretation) (x : ℚ)
    {entries : List (Option ℚ × ℕ)} (defined : ∀ entry ∈ entries, entry.1.isSome) :
    ((entries.filter fun entry =>
        (factoring interpretation).apart entry.1 (factoring interpretation).zero).map
      (entryValue x)).sum = (entries.map (entryValue x)).sum := by
  induction entries with
  | nil => rfl
  | cons entry rest ih =>
      rw [List.forall_mem_cons] at defined
      rw [List.filter_cons, List.map_cons, List.sum_cons, ← ih defined.2]
      split
      next => rw [List.map_cons, List.sum_cons]
      next vanishes =>
        obtain ⟨number, isNumber⟩ := Option.isSome_iff_exists.mp defined.1
        have isZero : number = 0 := by
          rw [isNumber, factoring_zero] at vanishes
          have equal : ¬ (some number ≠ some (0 : ℚ)) := fun different =>
            vanishes (decide_eq_true different)
          simpa using equal
        rw [entryValue, isNumber, Option.getD_some, isZero, zero_mul, zero_add]

def writtenTerm (interpretation : Interpretation) (name : String) (entry : Option ℚ × ℕ) :
    Except NumericFault (Term (Option ℚ)) := do
  let base? ← if entry.2 = 0 then pure none
    else some <$> Monomial.powerExpr (factoring interpretation) name entry.2
  return ⟨← (factoring interpretation).snap entry.1, base?⟩

include bound

theorem writtenTerm_denotes {name : String} {entry : Option ℚ × ℕ} {term : Term (Option ℚ)}
    (defined : entry.1.isSome)
    (isTerm : writtenTerm valuation.interpretation name entry = .ok term) :
    TermDenotes valuation term (entryValue (point name) entry) := by
  obtain ⟨number, isNumber⟩ := Option.isSome_iff_exists.mp defined
  unfold writtenTerm at isTerm
  dsimp only at isTerm
  split at isTerm
  next constant =>
    rw [except_pure, except_ok_bind] at isTerm
    obtain ⟨coefficient, snapped, same⟩ := except_bind_eq_ok.mp isTerm
    obtain rfl := snap_eq snapped
    cases same
    refine ⟨number, isNumber, ?_⟩
    rw [entryValue, isNumber, Option.getD_some, constant, pow_zero, mul_one]
  next =>
    obtain ⟨base?, isBase, rest⟩ := except_bind_eq_ok.mp isTerm
    obtain ⟨coefficient, snapped, same⟩ := except_bind_eq_ok.mp rest
    obtain rfl := snap_eq snapped
    cases same
    refine ⟨number, isNumber, ?_⟩
    rw [entryValue, isNumber, Option.getD_some]
    cases written : Monomial.powerExpr (factoring valuation.interpretation) name entry.2 with
    | error fault =>
        rw [written] at isBase
        cases isBase
    | ok base =>
        rw [written] at isBase
        cases isBase
        exact ⟨_, powerExpr_denotes bound written, rfl⟩

theorem writtenTerms_denote {name : String} {entries : List (Option ℚ × ℕ)}
    {terms : List (Term (Option ℚ))} (defined : ∀ entry ∈ entries, entry.1.isSome)
    (areTerms : entries.mapM (writtenTerm valuation.interpretation name) = .ok terms) :
    TermsDenote valuation terms (entries.map (entryValue (point name))).sum := by
  rw [mapM_eq_ok] at areTerms
  induction areTerms with
  | nil => rfl
  | cons isTerm _ ih =>
      rw [List.forall_mem_cons] at defined
      exact ⟨_, _, writtenTerm_denotes bound defined.1 isTerm, ih defined.2, List.sum_cons⟩

/-- A polynomial is written with its value. -/
theorem polynomialExpr_denotes {name : String} {numbers : List ℚ} {polynomial : Expr (Option ℚ)}
    (isPolynomial : Monomial.polynomialExpr (factoring valuation.interpretation) name
      (numbers.map some) = .ok polynomial) :
    Denotes valuation polynomial (polynomialValue (point name) numbers) := by
  obtain ⟨terms, areTerms, same⟩ := except_bind_eq_ok.mp isPolynomial
  cases same
  have entries : (numbers.map some).zipIdx = numbers.zipIdx.map (Prod.map some id) :=
    List.zipIdx_map ..
  have defined : ∀ entry ∈ (numbers.map some).zipIdx.reverse, entry.1.isSome := by
    intro entry member
    rw [entries, List.mem_reverse] at member
    obtain ⟨_, _, rfl⟩ := List.mem_map.mp member
    rfl
  have written := writtenTerms_denote bound
    (fun entry member => defined entry (List.mem_of_mem_filter member)) areTerms
  rw [sum_filter_entries _ _ defined, List.map_reverse, List.sum_reverse, entries,
    List.map_map] at written
  have total : (numbers.zipIdx.map fun entry => entry.1 * point name ^ entry.2).sum =
      polynomialValue (point name) numbers := by
    rw [sum_zipIdx, pow_zero, one_mul]
  rw [← total]
  exact join_denotes written

end Writing

end Exact

end ExprCalculus
