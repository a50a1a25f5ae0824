import ExprCalculus.Proofs.Simplification.Exact
import ExprCalculus.Proofs.Simplification.Terms
import Mathlib.Tactic.Ring

/-!
# Values of terms

In exact arithmetic a list of terms has a value, the sum of the multiples that its
terms stand for.  Flattening, merging and joining keep the value, so collecting the
terms of an expression gives an expression with the same value.
-/

namespace ExprCalculus

namespace Expr

variable {α : Type} {same : α → α → Bool}

mutual

/-- Expressions that count as the same are equal if constants that count as the
same are. -/
theorem eq_of_sameBy (faithful : ∀ first second, same first second = true → first = second)
    {first second : Expr α} (equal : sameBy same first second = true) : first = second := by
  match first, second with
  | .const first, .const second => exact congrArg Expr.const (faithful first second equal)
  | .var first, .var second => exact congrArg Expr.var (of_decide_eq_true equal)
  | .unary firstOperator first, .unary secondOperator second =>
      rw [sameBy, Bool.and_eq_true, decide_eq_true_eq] at equal
      rw [equal.1, eq_of_sameBy faithful equal.2]
  | .binary firstOperator firstLeft firstRight, .binary secondOperator secondLeft secondRight =>
      rw [sameBy, Bool.and_eq_true, Bool.and_eq_true, decide_eq_true_eq] at equal
      rw [equal.1.1, eq_of_sameBy faithful equal.1.2, eq_of_sameBy faithful equal.2]
  | .call firstName first firstOthers, .call secondName second secondOthers =>
      rw [sameBy, Bool.and_eq_true, Bool.and_eq_true, decide_eq_true_eq] at equal
      rw [equal.1.1, eq_of_sameBy faithful equal.1.2, eq_of_sameAllBy faithful equal.2]
  | .integral first firstName, .integral second secondName =>
      rw [sameBy, Bool.and_eq_true, decide_eq_true_eq] at equal
      rw [equal.1, eq_of_sameBy faithful equal.2]

theorem eq_of_sameAllBy (faithful : ∀ first second, same first second = true → first = second)
    {firsts seconds : List (Expr α)} (equal : sameAllBy same firsts seconds = true) : firsts = seconds := by
  match firsts, seconds with
  | [], [] => rfl
  | first :: firsts, second :: seconds =>
      rw [sameAllBy, Bool.and_eq_true] at equal
      rw [eq_of_sameBy faithful equal.1, eq_of_sameAllBy faithful equal.2]

end

end Expr

namespace Exact

variable {valuation : Valuation} {expression : Expr (Option ℚ)} {value : ℚ}

/-- Nearness is equality, so expressions that count as the same are equal. -/
theorem eq_of_sameExpr {interpretation : Interpretation} {first second : Expr (Option ℚ)}
    (equal : interpretation.arithmetic.sameExpr first second = true) : first = second :=
  Expr.eq_of_sameBy (fun _ _ same => of_decide_eq_true same) equal

/-- A term is defined and stands for the given multiple of its base. -/
def TermDenotes (valuation : Valuation) (term : Term (Option ℚ)) (value : ℚ) : Prop :=
  ∃ coefficient, term.coefficient = some coefficient ∧
    match term.base? with
    | none => value = coefficient
    | some base => ∃ factor, Denotes valuation base factor ∧ value = coefficient * factor

def TermsDenote (valuation : Valuation) : List (Term (Option ℚ)) → ℚ → Prop
  | [], value => value = 0
  | term :: rest, value => ∃ first others, TermDenotes valuation term first ∧
      TermsDenote valuation rest others ∧ value = first + others

theorem termsDenote_singleton {term : Term (Option ℚ)} (denotes : TermDenotes valuation term value) :
    TermsDenote valuation [term] value :=
  ⟨value, 0, denotes, rfl, (add_zero value).symm⟩

theorem TermsDenote.append {terms others : List (Term (Option ℚ))} {first second : ℚ}
    (firstDenote : TermsDenote valuation terms first)
    (secondDenote : TermsDenote valuation others second) :
    TermsDenote valuation (terms ++ others) (first + second) := by
  induction terms generalizing first with
  | nil =>
      cases firstDenote
      rw [List.nil_append, zero_add]
      exact secondDenote
  | cons term rest ih =>
      obtain ⟨termValue, restValue, termDenotes, restDenote, rfl⟩ := firstDenote
      exact ⟨termValue, restValue + second, termDenotes, ih restDenote, add_assoc _ _ _⟩

section Flattening

theorem TermDenotes.scaled {term : Term (Option ℚ)} (denotes : TermDenotes valuation term value)
    (scale : ℚ) :
    TermDenotes valuation
      ⟨valuation.interpretation.arithmetic.mul (some scale) term.coefficient, term.base?⟩
      (scale * value) := by
  obtain ⟨coefficient, isCoefficient, based⟩ := denotes
  refine ⟨scale * coefficient, by rw [isCoefficient]; rfl, ?_⟩
  cases base? : term.base? with
  | none =>
      rw [base?] at based
      cases based
      rfl
  | some base =>
      rw [base?] at based
      obtain ⟨factor, baseDenotes, rfl⟩ := based
      exact ⟨factor, baseDenotes, by ring⟩

theorem TermDenotes.negated {term : Term (Option ℚ)} (denotes : TermDenotes valuation term value) :
    TermDenotes valuation
      ⟨valuation.interpretation.arithmetic.neg term.coefficient, term.base?⟩ (-value) := by
  obtain ⟨coefficient, isCoefficient, based⟩ := denotes
  refine ⟨-coefficient, by rw [isCoefficient]; rfl, ?_⟩
  cases base? : term.base? with
  | none =>
      rw [base?] at based
      cases based
      rfl
  | some base =>
      rw [base?] at based
      obtain ⟨factor, baseDenotes, rfl⟩ := based
      exact ⟨factor, baseDenotes, by ring⟩

/-- Constant factors and signs move into the coefficient. -/
theorem ofExpr_denotes (denotes : Denotes valuation expression value) :
    TermDenotes valuation (Term.ofExpr valuation.interpretation.arithmetic expression) value := by
  revert value
  fun_induction Term.ofExpr valuation.interpretation.arithmetic expression with
  | case1 constant =>
      intro value denotes
      exact ⟨value, denotes_const.mp denotes, rfl⟩
  | case2 constant right term =>
      rename_i ih
      intro value denotes
      obtain ⟨factor, rightValue, isFactor, rightDenotes, rfl⟩ := denotes_mul.mp denotes
      rw [denotes_const.mp isFactor]
      exact (ih rightDenotes).scaled factor
  | case3 left constant notConst term =>
      rename_i ih
      intro value denotes
      obtain ⟨leftValue, factor, leftDenotes, isFactor, rfl⟩ := denotes_mul.mp denotes
      rw [denotes_const.mp isFactor, mul_comm]
      exact (ih leftDenotes).scaled factor
  | case4 operand term =>
      rename_i ih
      intro value denotes
      obtain ⟨operandValue, operandDenotes, rfl⟩ := denotes_neg.mp denotes
      exact (ih operandDenotes).negated
  | case5 =>
      intro value denotes
      exact ⟨1, rfl, value, denotes, (one_mul value).symm⟩

/-- The terms of an expression add up to the multiple of its value. -/
theorem flatten_denotes {factor : Option ℚ} {scale : ℚ} (isScale : factor = some scale)
    (denotes : Denotes valuation expression value) :
    TermsDenote valuation
      (Term.flatten valuation.interpretation.arithmetic factor expression) (scale * value) := by
  revert scale value
  fun_induction Term.flatten valuation.interpretation.arithmetic factor expression with
  | case1 factor left right ihLeft ihRight =>
      rintro value scale rfl denotes
      obtain ⟨leftValue, rightValue, leftDenotes, rightDenotes, combined⟩ :=
        denotes_binary.mp denotes
      cases combined
      rw [mul_add]
      exact (ihLeft rfl leftDenotes).append (ihRight rfl rightDenotes)
  | case2 factor left right ihLeft ihRight =>
      rintro value scale rfl denotes
      obtain ⟨leftValue, rightValue, leftDenotes, rightDenotes, combined⟩ :=
        denotes_binary.mp denotes
      cases combined
      rw [mul_sub, sub_eq_add_neg, ← neg_mul]
      exact (ihLeft rfl leftDenotes).append (ihRight rfl rightDenotes)
  | case3 factor operand ih =>
      rintro value scale rfl denotes
      obtain ⟨operandValue, operandDenotes, rfl⟩ := denotes_neg.mp denotes
      rw [mul_neg, ← neg_mul]
      exact ih rfl operandDenotes
  | case4 factor expression _ _ _ coefficient =>
      rename_i found
      rintro value scale rfl denotes
      have scaled := (ofExpr_denotes denotes).scaled scale
      rw [found] at scaled
      exact termsDenote_singleton scaled
  | case5 factor expression _ _ _ coefficient base found sum smaller =>
      rename_i ih
      rintro value scale rfl denotes
      obtain ⟨number, isNumber, based⟩ := ofExpr_denotes denotes
      rw [found] at based
      obtain ⟨baseValue, baseDenotes, rfl⟩ := based
      rw [← mul_assoc]
      refine ih ?_ baseDenotes
      exact congrArg (valuation.interpretation.arithmetic.mul (some scale)) isNumber
  | case6 factor expression _ _ _ coefficient base found =>
      rename_i plain
      rintro value scale rfl denotes
      have scaled := (ofExpr_denotes denotes).scaled scale
      rw [found] at scaled
      exact termsDenote_singleton scaled

end Flattening

section Merging

theorem eq_of_sameBase {interpretation : Interpretation} {first second : Option (Expr (Option ℚ))}
    (equal : Term.sameBase interpretation.arithmetic first second = true) : first = second := by
  match first, second with
  | none, none => rfl
  | some first, some second => exact congrArg some (eq_of_sameExpr equal)

/-- Terms with the same base are added by adding their coefficients. -/
theorem TermDenotes.merged {first second : Term (Option ℚ)} {firstValue secondValue : ℚ}
    (firstDenotes : TermDenotes valuation first firstValue)
    (secondDenotes : TermDenotes valuation second secondValue)
    (same : first.base? = second.base?) :
    TermDenotes valuation
      ⟨valuation.interpretation.arithmetic.add first.coefficient second.coefficient, first.base?⟩
      (firstValue + secondValue) := by
  obtain ⟨firstCoefficient, isFirst, firstBased⟩ := firstDenotes
  obtain ⟨secondCoefficient, isSecond, secondBased⟩ := secondDenotes
  rw [← same] at secondBased
  refine ⟨firstCoefficient + secondCoefficient, by rw [isFirst, isSecond]; rfl, ?_⟩
  cases base? : first.base? with
  | none =>
      rw [base?] at firstBased secondBased
      cases firstBased
      cases secondBased
      rfl
  | some base =>
      rw [base?] at firstBased secondBased
      obtain ⟨factor, baseDenotes, rfl⟩ := firstBased
      obtain ⟨otherFactor, alsoDenotes, rfl⟩ := secondBased
      rw [alsoDenotes.unique baseDenotes]
      exact ⟨factor, baseDenotes, by ring⟩

theorem TermsDenote.insert {terms : List (Term (Option ℚ))} {term : Term (Option ℚ)}
    {termValue : ℚ} (denote : TermsDenote valuation terms value)
    (termDenotes : TermDenotes valuation term termValue) :
    TermsDenote valuation (Term.insert valuation.interpretation.arithmetic terms term)
      (value + termValue) := by
  induction terms generalizing value with
  | nil =>
      cases denote
      rw [zero_add]
      exact termsDenote_singleton termDenotes
  | cons first rest ih =>
      obtain ⟨firstValue, restValue, firstDenotes, restDenote, rfl⟩ := denote
      rw [Term.insert]
      split
      next same =>
        refine ⟨_, restValue, firstDenotes.merged termDenotes (eq_of_sameBase same), restDenote, ?_⟩
        ring
      next => exact ⟨firstValue, _, firstDenotes, ih restDenote, add_assoc _ _ _⟩

theorem TermsDenote.foldl_insert {merged terms : List (Term (Option ℚ))} {mergedValue : ℚ}
    (mergedDenote : TermsDenote valuation merged mergedValue)
    (denote : TermsDenote valuation terms value) :
    TermsDenote valuation (terms.foldl (Term.insert valuation.interpretation.arithmetic) merged)
      (mergedValue + value) := by
  induction terms generalizing merged mergedValue value with
  | nil =>
      cases denote
      rw [add_zero]
      exact mergedDenote
  | cons term rest ih =>
      obtain ⟨termValue, restValue, termDenotes, restDenote, rfl⟩ := denote
      rw [List.foldl_cons, ← add_assoc]
      exact ih (mergedDenote.insert termDenotes) restDenote

/-- Dropping terms whose coefficient is zero keeps the sum. -/
theorem TermsDenote.filter {terms : List (Term (Option ℚ))}
    (denote : TermsDenote valuation terms value) :
    TermsDenote valuation
      (terms.filter fun term => valuation.interpretation.arithmetic.apart term.coefficient
        valuation.interpretation.arithmetic.zero) value := by
  induction terms generalizing value with
  | nil => exact denote
  | cons term rest ih =>
      obtain ⟨termValue, restValue, termDenotes, restDenote, rfl⟩ := denote
      rw [List.filter_cons]
      split
      next => exact ⟨termValue, restValue, termDenotes, ih restDenote, rfl⟩
      next vanishes =>
        obtain ⟨coefficient, isCoefficient, based⟩ := termDenotes
        have isZero : coefficient = 0 := by
          rw [isCoefficient] at vanishes
          have equal : ¬ (some coefficient ≠ some ((0 : Int) : ℚ)) := fun different =>
            vanishes (decide_eq_true different)
          simpa using equal
        have noValue : termValue = 0 := by
          cases base? : term.base? with
          | none =>
              rw [base?] at based
              exact based.trans isZero
          | some base =>
              rw [base?] at based
              obtain ⟨factor, -, rfl⟩ := based
              rw [isZero, zero_mul]
        rw [noValue, zero_add]
        exact ih restDenote

end Merging

section Joining

variable {sum : Expr (Option ℚ)} {sumValue : ℚ}

theorem toExpr_denotes {term : Term (Option ℚ)} (denotes : TermDenotes valuation term value) :
    Denotes valuation
      (Term.toExpr valuation.interpretation.arithmetic term.coefficient term.base?) value := by
  obtain ⟨coefficient, isCoefficient, based⟩ := denotes
  cases base? : term.base? with
  | none =>
      rw [base?] at based
      cases based
      exact denotes_const.mpr isCoefficient
  | some base =>
      rw [base?] at based
      obtain ⟨factor, baseDenotes, rfl⟩ := based
      rw [Term.toExpr, isCoefficient]
      split
      next nearOne =>
        have isOne : some coefficient = some ((1 : Int) : ℚ) := of_decide_eq_true nearOne
        cases isOne
        simpa using baseDenotes
      next =>
        split
        next nearMinus =>
          have isMinus : some coefficient = some ((-1 : Int) : ℚ) := of_decide_eq_true nearMinus
          cases isMinus
          simpa using baseDenotes.neg
        next => exact (denotes_const.mpr rfl).mul baseDenotes

theorem appendTo_denotes {term : Term (Option ℚ)} (sumDenotes : Denotes valuation sum sumValue)
    (denotes : TermDenotes valuation term value) :
    Denotes valuation (Term.appendTo valuation.interpretation.arithmetic sum term)
      (sumValue + value) := by
  rw [Term.appendTo]
  split
  · rw [← sub_neg_eq_add]
    exact sumDenotes.sub (toExpr_denotes denotes.negated)
  · exact sumDenotes.add (toExpr_denotes denotes)

theorem foldl_appendTo_denotes {terms : List (Term (Option ℚ))}
    (sumDenotes : Denotes valuation sum sumValue) (denote : TermsDenote valuation terms value) :
    Denotes valuation (terms.foldl (Term.appendTo valuation.interpretation.arithmetic) sum)
      (sumValue + value) := by
  induction terms generalizing sum sumValue value with
  | nil =>
      cases denote
      rw [add_zero]
      exact sumDenotes
  | cons term rest ih =>
      obtain ⟨termValue, restValue, termDenotes, restDenote, rfl⟩ := denote
      rw [List.foldl_cons, ← add_assoc]
      exact ih (appendTo_denotes sumDenotes termDenotes) restDenote

theorem join_denotes {terms : List (Term (Option ℚ))} (denote : TermsDenote valuation terms value) :
    Denotes valuation (Term.join valuation.interpretation.arithmetic terms) value := by
  cases terms with
  | nil =>
      cases denote
      exact denotes_const.mpr rfl
  | cons first rest =>
      obtain ⟨firstValue, restValue, firstDenotes, restDenote, rfl⟩ := denote
      exact foldl_appendTo_denotes (toExpr_denotes firstDenotes) restDenote

/-- The terms of an expression add up to its value. -/
theorem split_denotes (denotes : Denotes valuation expression value) :
    TermsDenote valuation (Term.split valuation.interpretation.arithmetic expression) value := by
  have terms := flatten_denotes (show (some ((1 : Int) : ℚ)) = some 1 by simp) denotes
  have noTerms : TermsDenote valuation [] 0 := rfl
  have merged := (noTerms.foldl_insert terms).filter
  rwa [zero_add, one_mul] at merged

theorem collect_denotes (denotes : Denotes valuation expression value) :
    Denotes valuation (Term.collect valuation.interpretation.arithmetic expression) value :=
  join_denotes (split_denotes denotes)

end Joining

end Exact

end ExprCalculus
