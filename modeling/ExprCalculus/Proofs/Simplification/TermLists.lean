import ExprCalculus.Proofs.Comparison.Equality
import ExprCalculus.Proofs.Doubles.Tolerance

/-!
# Canonical lists of terms

The terms of an expression have atomic bases, pairwise different, and coefficients away from
zero.  The sum of such a list is split into the list again, term by term: only a coefficient
near one or minus one, which is not written in front of a base, is read as exactly one or
minus one.
-/

namespace ExprCalculus

/-- What reading every term of a sum exactly needs besides: the tests do not depend on the
sign, and nothing is apart from zero that is zero. -/
structure Arithmetic.IsBalanced {α : Type} (arithmetic : Arithmetic α) : Prop where
  neg_one : arithmetic.neg arithmetic.one = arithmetic.ofInt (-1)
  near_neg_neg (first second : α) :
    arithmetic.near (arithmetic.neg first) (arithmetic.neg second) = arithmetic.near first second
  zero_not_apart : arithmetic.apart arithmetic.zero arithmetic.zero = false

namespace Term

variable {α : Type} (arithmetic : Arithmetic α)

/-- A term as it is read after it was written: on a base, a coefficient near one or minus one
is exactly that number. -/
def readBack (term : Term α) : Term α :=
  match term.base? with
  | none => term
  | some base =>
      if arithmetic.near term.coefficient arithmetic.one then
        ⟨arithmetic.one, some base⟩
      else if arithmetic.near term.coefficient (arithmetic.ofInt (-1)) then
        ⟨arithmetic.ofInt (-1), some base⟩
      else
        term

section Terms

variable {arithmetic} {coefficient : α} {base : Expr α}

theorem readBack_constant : readBack arithmetic ⟨coefficient, none⟩ = ⟨coefficient, none⟩ :=
  rfl

theorem readBack_of_near_one (nearOne : arithmetic.near coefficient arithmetic.one = true) :
    readBack arithmetic ⟨coefficient, some base⟩ = ⟨arithmetic.one, some base⟩ :=
  if_pos nearOne

theorem readBack_of_near_neg_one
    (notOne : arithmetic.near coefficient arithmetic.one = false)
    (minus : arithmetic.near coefficient (arithmetic.ofInt (-1)) = true) :
    readBack arithmetic ⟨coefficient, some base⟩ = ⟨arithmetic.ofInt (-1), some base⟩ :=
  (if_neg (by simp [notOne])).trans (if_pos minus)

theorem readBack_of_not_near
    (notOne : arithmetic.near coefficient arithmetic.one = false)
    (notMinus : arithmetic.near coefficient (arithmetic.ofInt (-1)) = false) :
    readBack arithmetic ⟨coefficient, some base⟩ = ⟨coefficient, some base⟩ :=
  (if_neg (by simp [notOne])).trans (if_neg (by simp [notMinus]))

theorem base?_readBack (term : Term α) : (readBack arithmetic term).base? = term.base? := by
  obtain ⟨coefficient, base?⟩ := term
  cases base? with
  | none => rfl
  | some base =>
      unfold readBack
      dsimp only
      split
      · rfl
      split
      · rfl
      · rfl

end Terms

section Reading

variable {arithmetic} (tolerant : arithmetic.IsTolerant)
include tolerant

/-- A term that is written without a sign is read back. -/
theorem flatten_toExpr_unsigned {coefficient : α} {base? : Option (Expr α)}
    (atomic : ∀ base ∈ base?, isAtomic base = true)
    (notMinus : arithmetic.near coefficient (arithmetic.ofInt (-1)) = false) (scale : α) :
    flatten arithmetic scale (toExpr arithmetic coefficient base?) =
      [⟨arithmetic.mul scale (readBack arithmetic ⟨coefficient, base?⟩).coefficient, base?⟩] := by
  cases base? with
  | none => exact flatten_const arithmetic scale coefficient
  | some base =>
      have baseAtomic : isAtomic base = true := atomic base rfl
      rw [toExpr]
      by_cases nearOne : arithmetic.near coefficient arithmetic.one = true
      · rw [if_pos nearOne, flatten_of_isAtomic arithmetic scale baseAtomic,
          readBack_of_near_one nearOne]
      · rw [if_neg nearOne, if_neg (by simp [notMinus]), flatten_multiple arithmetic scale _
          baseAtomic, tolerant.mul_one, readBack_of_not_near (by simpa using nearOne) notMinus]

variable (balanced : arithmetic.IsBalanced)
include balanced

/-- The first term of a sum is read back; its sign is written with it. -/
theorem flatten_toExpr {coefficient : α} {base? : Option (Expr α)}
    (atomic : ∀ base ∈ base?, isAtomic base = true) :
    flatten arithmetic arithmetic.one (toExpr arithmetic coefficient base?) =
      [readBack arithmetic ⟨coefficient, base?⟩] := by
  cases base? with
  | none => rw [toExpr, flatten_const, tolerant.one_mul, readBack_constant]
  | some base =>
      have baseAtomic : isAtomic base = true := atomic base rfl
      rw [toExpr]
      by_cases nearOne : arithmetic.near coefficient arithmetic.one = true
      · rw [if_pos nearOne, flatten_of_isAtomic arithmetic _ baseAtomic, tolerant.one_mul,
          readBack_of_near_one nearOne]
      have notOne : arithmetic.near coefficient arithmetic.one = false := by simpa using nearOne
      rw [if_neg nearOne]
      by_cases minus : arithmetic.near coefficient (arithmetic.ofInt (-1)) = true
      · rw [if_pos minus, flatten_neg, flatten_of_isAtomic arithmetic _ baseAtomic,
          tolerant.mul_one, balanced.neg_one, readBack_of_near_neg_one notOne minus]
      · rw [if_neg minus, flatten_multiple arithmetic _ _ baseAtomic, tolerant.mul_one,
          tolerant.one_mul, readBack_of_not_near notOne (by simpa using minus)]

/-- A negative coefficient is read back from the subtraction of the opposite term. -/
theorem coefficient_readBack_neg {coefficient : α} {base? : Option (Expr α)}
    (negative : arithmetic.isNegative coefficient = true) :
    arithmetic.mul (arithmetic.neg arithmetic.one)
        (readBack arithmetic ⟨arithmetic.neg coefficient, base?⟩).coefficient =
      (readBack arithmetic ⟨coefficient, base?⟩).coefficient := by
  cases base? with
  | none => exact tolerant.neg_one_mul_neg coefficient
  | some base =>
      have oppositeNotMinus := tolerant.neg_not_near_neg_one coefficient negative
      have notOne : arithmetic.near coefficient arithmetic.one = false := by
        rw [← balanced.near_neg_neg, balanced.neg_one, oppositeNotMinus]
      have opposite : arithmetic.near (arithmetic.neg coefficient) arithmetic.one =
          arithmetic.near coefficient (arithmetic.ofInt (-1)) := by
        rw [← tolerant.neg_neg_one, balanced.near_neg_neg, balanced.neg_one]
      by_cases minus : arithmetic.near coefficient (arithmetic.ofInt (-1)) = true
      · rw [readBack_of_near_one (opposite.trans minus), readBack_of_near_neg_one notOne minus,
          tolerant.mul_one, balanced.neg_one]
      · rw [Bool.not_eq_true] at minus
        rw [readBack_of_not_near (opposite.trans minus) oppositeNotMinus,
          readBack_of_not_near notOne minus, tolerant.neg_one_mul_neg]

/-- A later term of a sum is read back behind the terms before it. -/
theorem flatten_appendTo (sum : Expr α) {term : Term α}
    (atomic : ∀ base ∈ term.base?, isAtomic base = true) :
    flatten arithmetic arithmetic.one (appendTo arithmetic sum term) =
      flatten arithmetic arithmetic.one sum ++ [readBack arithmetic term] := by
  have sameTerm : ⟨(readBack arithmetic term).coefficient, term.base?⟩ =
      readBack arithmetic term :=
    congrArg (Term.mk _) (base?_readBack term).symm
  rw [appendTo]
  by_cases negative : arithmetic.isNegative term.coefficient = true
  · have notMinus := tolerant.neg_not_near_neg_one term.coefficient negative
    rw [if_pos negative, flatten_sub, flatten_toExpr_unsigned tolerant atomic notMinus,
      coefficient_readBack_neg tolerant balanced negative, sameTerm]
  · have notMinus := tolerant.not_near_neg_one term.coefficient (by simpa using negative)
    rw [if_neg negative, flatten_add, flatten_toExpr_unsigned tolerant atomic notMinus,
      tolerant.one_mul, sameTerm]

/-- The terms of a rebuilt sum are the terms that it was built from, read back. -/
theorem flatten_join {terms : List (Term α)} (nonempty : terms ≠ [])
    (atomic : ∀ term ∈ terms, ∀ base ∈ term.base?, isAtomic base = true) :
    flatten arithmetic arithmetic.one (join arithmetic terms) =
      terms.map (readBack arithmetic) := by
  induction terms using List.reverseRecOn with
  | nil => exact absurd rfl nonempty
  | append_singleton initial last ih =>
      have lastAtomic := atomic last (by simp)
      by_cases single : initial = []
      · subst single
        exact flatten_toExpr tolerant balanced lastAtomic
      · rw [join_concat arithmetic single, flatten_appendTo tolerant balanced _ lastAtomic,
          ih single fun term member => atomic term (List.mem_append_left _ member),
          List.map_append, List.map_singleton]

theorem apart_readBack {term : Term α}
    (nonzero : arithmetic.apart term.coefficient arithmetic.zero = true) :
    arithmetic.apart (readBack arithmetic term).coefficient arithmetic.zero = true := by
  unfold readBack
  split
  · exact nonzero
  split
  · exact tolerant.one_apart
  split
  · rw [← balanced.neg_one]
    exact tolerant.neg_one_apart
  · exact nonzero

/-- Splitting a rebuilt sum of merged terms gives the terms, read back. -/
theorem split_join {terms : List (Term α)} (distinct : Distinct arithmetic terms)
    (atomic : ∀ term ∈ terms, ∀ base ∈ term.base?, isAtomic base = true)
    (nonzero : ∀ term ∈ terms, arithmetic.apart term.coefficient arithmetic.zero = true) :
    split arithmetic (join arithmetic terms) = terms.map (readBack arithmetic) := by
  by_cases nonempty : terms = []
  · subst nonempty
    rw [join, split, flatten_const, tolerant.one_mul]
    simp [merge, Term.insert, balanced.zero_not_apart]
  · rw [split, flatten_join tolerant balanced nonempty atomic]
    apply merge_of_distinct
    · refine List.pairwise_map.mpr (distinct.imp fun {first second} different => ?_)
      rwa [base?_readBack, base?_readBack]
    · intro term member
      obtain ⟨written, isWritten, rfl⟩ := List.mem_map.mp member
      exact apart_readBack tolerant balanced (nonzero written isWritten)

end Reading

end Term

namespace Binary64

theorem isBalanced_doubles {settings : Settings} (positive : 0.0 < settings.epsilon) :
    (Doubles.arithmetic settings).IsBalanced where
  neg_one := neg_ofInt_one
  near_neg_neg := settings.near_neg_neg
  zero_not_apart := by
    change settings.apart (ofInt 0) (ofInt 0) = false
    rw [Bool.eq_false_iff, Ne, apart_eq_true, sub_zero_eq]
    have zero : (ofInt 0).abs = 0.0 := by decide
    rw [zero, le_iff]
    rw [lt_iff] at positive
    omega

end Binary64

namespace Term

section Doubles

variable (settings : Settings)

theorem sameBase_comm (first second : Option (Expr Float)) :
    sameBase (Doubles.arithmetic settings) first second =
      sameBase (Doubles.arithmetic settings) second first := by
  have symmetric (value other : Float) (same : settings.same value other = true) :
      settings.same other value = true :=
    Settings.same_iff_agree.mpr
      (Settings.agree_symm value other (Settings.same_iff_agree.mp same))
  match first, second with
  | none, none | none, some _ | some _, none => rfl
  | some left, some right =>
      rw [Bool.eq_iff_iff]
      change Expr.sameBy settings.same left right = true ↔
        Expr.sameBy settings.same right left = true
      rw [Expr.sameBy_iff_alike, Expr.sameBy_iff_alike]
      exact ⟨Expr.Alike.symm symmetric, Expr.Alike.symm symmetric⟩

/-- At most one of several terms with different bases is a constant. -/
theorem countP_constant_le_one {terms : List (Term Float)}
    (distinct : Distinct (Doubles.arithmetic settings) terms) :
    terms.countP (·.base?.isNone) ≤ 1 := by
  induction terms with
  | nil => exact Nat.zero_le 1
  | cons first rest ih =>
      obtain ⟨fromFirst, restDistinct⟩ := List.pairwise_cons.mp distinct
      rw [List.countP_cons]
      split
      next isConstant =>
        have noOther : rest.countP (·.base?.isNone) = 0 := by
          rw [List.countP_eq_zero]
          intro other member alsoConstant
          have different := fromFirst other member
          rw [Option.isNone_iff_eq_none.mp isConstant,
            Option.isNone_iff_eq_none.mp alsoConstant] at different
          cases different
        omega
      next => exact ih restDistinct

/-- The terms of an expression over doubles have pairwise different bases, at most one of
them is a constant, no coefficient is smaller than the tolerance, and every base is atomic.
Splitting their sum gives the same bases in the same order, with the same coefficients but
for those near one or minus one, which on a base become exactly one or minus one. -/
theorem split_canonical (positive : 0.0 < settings.epsilon) (atMostOne : settings.epsilon ≤ 1.0)
    (expression : Expr Float) :
    let arithmetic := Doubles.arithmetic settings
    let terms := split arithmetic expression
    terms.Pairwise (fun first second =>
        sameBase arithmetic first.base? second.base? = false ∧
          sameBase arithmetic second.base? first.base? = false) ∧
      terms.countP (·.base?.isNone) ≤ 1 ∧
      (∀ term ∈ terms, settings.epsilon ≤ term.coefficient.abs) ∧
      (∀ term ∈ terms, ∀ base ∈ term.base?, isAtomic base = true) ∧
      split arithmetic (join arithmetic terms) = terms.map (readBack arithmetic) := by
  intro arithmetic terms
  have distinct : Distinct arithmetic terms := distinct_merge arithmetic _
  have atomic : ∀ term ∈ terms, ∀ base ∈ term.base?, isAtomic base = true :=
    fun term member => isAtomic_of_mem_split arithmetic member
  have nonzero : ∀ term ∈ terms, arithmetic.apart term.coefficient arithmetic.zero = true :=
    fun term member => (List.mem_filter.mp member).2
  have bothWays {first second : Term Float}
      (different : sameBase arithmetic first.base? second.base? = false) :
      sameBase arithmetic first.base? second.base? = false ∧
        sameBase arithmetic second.base? first.base? = false :=
    ⟨different, (sameBase_comm settings _ _).trans different⟩
  refine ⟨distinct.imp bothWays, countP_constant_le_one settings distinct,
    fun term member => ?_, atomic,
    split_join (Binary64.isTolerant_doubles positive atMostOne)
      (Binary64.isBalanced_doubles positive) distinct atomic nonzero⟩
  have apart := Binary64.apart_eq_true.mp (nonzero term member)
  have distance : term.coefficient - arithmetic.zero = term.coefficient :=
    Binary64.sub_zero_eq _
  rwa [distance] at apart

/-- In `(x + 0.99999999999 * y) - (5 * x + 7)` the coefficient of `y` is near one. -/
theorem split_canonical_nearOne :
    let arithmetic := Doubles.arithmetic .standard
    let expression : Expr Float :=
      .var "x" + .const 0.99999999999 * .var "y" - (.const 5.0 * .var "x" + .const 7.0)
    let terms := split arithmetic expression
    0.0 < Settings.standard.epsilon ∧ Settings.standard.epsilon ≤ 1.0 ∧
      terms.map (·.coefficient) = [-4.0, 0.99999999999, -7.0] ∧
      (terms.map (readBack arithmetic)).map (·.coefficient) = [-4.0, 1.0, -7.0] ∧
      terms.Pairwise (fun first second =>
        sameBase arithmetic first.base? second.base? = false ∧
          sameBase arithmetic second.base? first.base? = false) ∧
      terms.countP (·.base?.isNone) ≤ 1 ∧
      (∀ term ∈ terms, Settings.standard.epsilon ≤ term.coefficient.abs) ∧
      (∀ term ∈ terms, ∀ base ∈ term.base?, isAtomic base = true) ∧
      split arithmetic (join arithmetic terms) = terms.map (readBack arithmetic) := by
  intro arithmetic expression terms
  have positive : 0.0 < Settings.standard.epsilon := by decide
  have atMostOne : Settings.standard.epsilon ≤ 1.0 := by decide
  exact ⟨positive, atMostOne, by decide +kernel, by decide +kernel,
    split_canonical .standard positive atMostOne expression⟩

end Doubles

end Term

end ExprCalculus
