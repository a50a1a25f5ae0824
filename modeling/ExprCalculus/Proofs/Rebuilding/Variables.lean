import ExprCalculus.Polynomial.Arithmetic
import ExprCalculus.Proofs.Evaluation.Substitution
import ExprCalculus.Proofs.Rebuilding.Calculus
import ExprCalculus.Proofs.Rebuilding.Polynomial
import Mathlib.Data.List.Nodup

/-!
# Variables of transformed expressions

No transformation makes up a variable.  Simplifying, expanding, differentiating and factoring
leave variables of the expression only, and integrating adds at most the variable of the
integral.  The variable that integrating puts in the place of an argument is a fresh one, and
it is always replaced again.
-/

namespace ExprCalculus

section Fresh

def freshCandidate (number : Nat) : String :=
  if number = 0 then "_u" else "_u" ++ toString number

theorem length_freshCandidate {number : Nat} (positive : number ≠ 0) :
    "_u".length < (freshCandidate number).length := by
  rw [freshCandidate, if_neg positive, String.length_append]
  exact Nat.lt_add_of_pos_right Nat.length_repr_pos

theorem freshCandidate_injective : Function.Injective freshCandidate := by
  intro first second same
  by_cases firstZero : first = 0
  · subst firstZero
    by_contra distinct
    have longer := length_freshCandidate (Ne.symm distinct)
    rw [← same] at longer
    exact Nat.lt_irrefl _ longer
  by_cases secondZero : second = 0
  · subst secondZero
    have longer := length_freshCandidate firstZero
    rw [same] at longer
    exact absurd longer (Nat.lt_irrefl _)
  rw [freshCandidate, if_neg firstZero, freshCandidate, if_neg secondZero,
    String.append_right_inj, Nat.toString_eq_ofList_toDigits, Nat.toString_eq_ofList_toDigits,
    String.ofList_inj] at same
  rw [← @Nat.ofDigitChars_ten_toDigits first, same, Nat.ofDigitChars_ten_toDigits]

theorem freshName_eq (taken : List String) :
    Antiderivative.freshName taken =
      (((List.range (taken.length + 1)).map freshCandidate).find?
        (!taken.contains ·)).getD "_u" :=
  rfl

/-- A fresh variable is not among the given ones: there is one candidate more than there are
of these. -/
theorem freshName_not_mem (taken : List String) : Antiderivative.freshName taken ∉ taken := by
  have distinct : ((List.range (taken.length + 1)).map freshCandidate).Nodup :=
    List.nodup_range.map freshCandidate_injective
  rw [freshName_eq]
  cases found : ((List.range (taken.length + 1)).map freshCandidate).find?
      (!taken.contains ·) with
  | some name =>
      have free := List.find?_some found
      simpa using free
  | none =>
      have allTaken : (List.range (taken.length + 1)).map freshCandidate ⊆ taken := by
        intro name member
        simpa using List.find?_eq_none.mp found name member
      have bound := distinct.length_le_of_subset allTaken
      rw [List.length_map, List.length_range] at bound
      exact absurd bound (Nat.not_succ_le_self _)

end Fresh

namespace Expr

variable {α : Type} {allowed : String → Prop}

/-- The variables of an expression are allowed ones. -/
def VariablesIn (allowed : String → Prop) (expression : Expr α) : Prop :=
  ∀ name ∈ expression.occurrences, allowed name

theorem variablesIn_all {expressions : List (Expr α)}
    (given : ∀ expression ∈ expressions, VariablesIn allowed expression) :
    ∀ name ∈ occurrencesAll expressions, allowed name := by
  induction expressions with
  | nil => exact nofun
  | cons expression rest ih =>
      obtain ⟨expressionGiven, restGiven⟩ := List.forall_mem_cons.mp given
      exact List.forall_mem_append.mpr ⟨expressionGiven, ih restGiven⟩

theorem occurrences_subset_occurrencesAll {expressions : List (Expr α)} {expression : Expr α}
    (member : expression ∈ expressions) :
    expression.occurrences ⊆ occurrencesAll expressions := by
  induction expressions with
  | nil => cases member
  | cons first rest ih =>
      rw [occurrencesAll]
      rcases List.mem_cons.mp member with rfl | inRest
      · exact List.subset_append_left _ _
      · exact List.subset_append_of_subset_right _ (ih inRest)

theorem occurrences_subset_of_child {parent child : Expr α} (below : child ∈ parent.children) :
    child.occurrences ⊆ parent.occurrences := by
  cases parent with
  | const _ | var _ => cases below
  | unary _ operand =>
      rw [List.mem_singleton.mp below]
      exact List.Subset.refl _
  | binary _ left right =>
      have inOperands := occurrences_subset_occurrencesAll below
      rwa [children, occurrencesAll, occurrencesAll, occurrencesAll, List.append_nil] at inOperands
  | call _ first others => exact occurrences_subset_occurrencesAll below
  | integral integrand _ =>
      rw [List.mem_singleton.mp below]
      exact List.subset_append_left _ _

theorem calculating_variablesIn :
    Calculating (VariablesIn allowed : Expr α → Prop) where
  const _ := nofun
  negate given := given
  binary _ leftGiven rightGiven := List.forall_mem_append.mpr ⟨leftGiven, rightGiven⟩
  child given _ below _ occurs := given _ (occurrences_subset_of_child below occurs)
  unary _ given := given
  reciprocal _ given := List.forall_mem_append.mpr ⟨given, nofun⟩
  integral given variableGiven := List.forall_mem_append.mpr ⟨given, variableGiven⟩
  bound given := (List.forall_mem_append.mp given).2

theorem renewing_variablesIn : Renewing (VariablesIn allowed : Expr α → Prop) where
  toRebuilding := calculating_variablesIn.toRebuilding
  unary _ renewedGiven := renewedGiven
  call _ renewedGiven othersGiven :=
    List.forall_mem_append.mpr ⟨renewedGiven, variablesIn_all othersGiven⟩
  integral given renewedGiven :=
    List.forall_mem_append.mpr ⟨renewedGiven, (List.forall_mem_append.mp given).2⟩

section Transformations

variable {arithmetic : Arithmetic α} {name : String} {expression : Expr α}

theorem variablesIn_differentiate {result : Expr α} (given : VariablesIn allowed expression)
    (differentiated : (expression.differentiate arithmetic name).outcome = .ok result) :
    VariablesIn allowed result := by
  obtain ⟨derivative, isDerivative, isSimplified⟩ := Expr.differentiate_eq_ok.mp differentiated
  exact renewing_variablesIn.ofSimplify (calculating_variablesIn.ofDerivative given isDerivative)
    isSimplified

theorem variablesIn_integrate {result : Antiderivative α} (nameAllowed : allowed name)
    (given : VariablesIn allowed expression)
    (integrated : (expression.integrate arithmetic name).outcome = .ok result) :
    VariablesIn allowed result.tree := by
  have variableGiven : VariablesIn allowed (.var name : Expr α) :=
    List.forall_mem_singleton.mpr nameAllowed
  obtain ⟨-, found, isFound, isSimplified, -⟩ := Expr.integrate_eq_ok.mp integrated
  have yields : Yields arithmetic (VariablesIn allowed) (expression.antiderivative arithmetic name) :=
    calculating_variablesIn.yields_antiderivative variableGiven given
  exact renewing_variablesIn.ofSimplify (yields.tree found isFound) isSimplified

/-- The fresh variable that an elementary function is integrated in is replaced by the
argument, so that it is not among the variables of the result. -/
theorem fresh_not_mem_elementary {integrand argument : Expr α} {function : String}
    {result : Antiderivative α} (below : argument ∈ integrand.children)
    (occurs : name ∈ integrand.occurrences)
    (made : (Antiderivative.elementary arithmetic name integrand function argument).outcome =
      .ok result) :
    Antiderivative.freshName integrand.occurrences ∉ result.tree.occurrences := by
  have given : VariablesIn (· ∈ integrand.occurrences) integrand := fun _ member => member
  have argumentGiven := calculating_variablesIn.child given argument below
  have variableGiven : VariablesIn (· ∈ integrand.occurrences) (.var name : Expr α) :=
    List.forall_mem_singleton.mpr occurs
  have yields : Yields arithmetic (VariablesIn (· ∈ integrand.occurrences))
      (Antiderivative.elementary arithmetic name integrand function argument) :=
    calculating_variablesIn.elementary variableGiven given argumentGiven
  exact fun remains => freshName_not_mem _ (yields.tree result made _ remains)

end Transformations

/-- No transformation makes up a variable: whenever they give a result, simplifying, expanding,
differentiating and factoring, in whatever variable, leave variables of the expression only, and
integrating adds at most the variable of the integral.  The variable that stands for an argument
while it is integrated never remains. -/
theorem transformations_add_no_variables {α : Type} (arithmetic : FactoringArithmetic α)
    (name : String) (expression : Expr α) :
    (∀ result, (expression.simplify arithmetic.toArithmetic).outcome = .ok result →
      result.variableNames ⊆ expression.variableNames) ∧
    (expression.expand arithmetic.toArithmetic).variableNames ⊆ expression.variableNames ∧
    (∀ result, (expression.differentiate arithmetic.toArithmetic name).outcome = .ok result →
      result.variableNames ⊆ expression.variableNames) ∧
    (∀ requested? result, (expression.factor arithmetic requested?).outcome = .ok result →
      result.variableNames ⊆ expression.variableNames) ∧
    (∀ result, (expression.integrate arithmetic.toArithmetic name).outcome = .ok result →
      result.tree.variableNames ⊆ name :: expression.variableNames) ∧
    ∀ function argument result, argument ∈ expression.children →
      name ∈ expression.variableNames →
      (Antiderivative.elementary arithmetic.toArithmetic name expression function
        argument).outcome = .ok result →
      Antiderivative.freshName expression.occurrences ∉ result.tree.variableNames := by
  have given : VariablesIn (· ∈ expression.variableNames) expression :=
    fun _ => mem_variableNames.mpr
  have kept {result : Expr α} (allowed : VariablesIn (· ∈ expression.variableNames) result) :
      result.variableNames ⊆ expression.variableNames :=
    fun other member => allowed other (mem_variableNames.mp member)
  have simplified {result : Expr α}
      (made : (expression.simplify arithmetic.toArithmetic).outcome = .ok result) :
      VariablesIn (· ∈ expression.variableNames) result :=
    renewing_variablesIn.ofSimplify given made
  refine ⟨fun _ made => kept (simplified made), kept (renewing_variablesIn.ofExpand given),
    fun _ made => kept (variablesIn_differentiate given made),
    fun _ _ made => kept (calculating_variablesIn.ofFactor (fun _ => simplified) made),
    fun _ made other member => ?_, fun _ _ _ below occurs made remains => ?_⟩
  · have givenBeside : VariablesIn (· ∈ name :: expression.variableNames) expression :=
      fun _ occurs => List.mem_cons_of_mem _ (mem_variableNames.mpr occurs)
    exact variablesIn_integrate List.mem_cons_self givenBeside made other
      (mem_variableNames.mp member)
  · exact fresh_not_mem_elementary below (mem_variableNames.mp occurs) made
      (mem_variableNames.mp remains)

/-- The tree `sin(2 * _u + 1)` has the variable `_u`, so that `_u1` stands for its argument
while it is integrated; factoring `4 * x ^ 2 - 4` in a variable `y` brings in no `y`. -/
theorem transformations_add_no_variables_sine :
    let arithmetic := Doubles.factoring .standard
    let argument : Expr Float := .const 2.0 * .var "_u" + .const 1.0
    let tree : Expr Float := .unary .sin argument
    let polynomial : Expr Float :=
      .const 4.0 * .binary .power (.var "x") (.const 2.0) - .const 4.0
    Antiderivative.freshName tree.occurrences = "_u1" ∧
      (∃ result, (tree.differentiate arithmetic.toArithmetic "_u").outcome = .ok result ∧
        result.variableNames ⊆ tree.variableNames) ∧
      (∃ result, (polynomial.factor arithmetic (some "y")).outcome = .ok result ∧
        result.variableNames ⊆ polynomial.variableNames) ∧
      (∃ result, (tree.integrate arithmetic.toArithmetic "_u").outcome = .ok result ∧
        result.tree.variableNames ⊆ "_u" :: tree.variableNames) ∧
      ∃ result, (Antiderivative.elementary arithmetic.toArithmetic "_u" tree "sin"
          argument).outcome = .ok result ∧
        "_u1" ∉ result.tree.variableNames := by
  intro arithmetic argument tree polynomial
  have fresh : Antiderivative.freshName tree.occurrences = "_u1" := by decide +kernel
  obtain ⟨-, -, slopes, -, integrals, elementary⟩ :=
    transformations_add_no_variables arithmetic "_u" tree
  obtain ⟨-, -, -, factors, -, -⟩ := transformations_add_no_variables arithmetic "x" polynomial
  have occurs : "_u" ∈ tree.variableNames := mem_variableNames.mpr (by decide)
  have differentiated : (tree.differentiate arithmetic.toArithmetic "_u").outcome.isOk = true := by
    decide +kernel
  have factored : (polynomial.factor arithmetic (some "y")).outcome.isOk = true := by
    decide +kernel
  have integrated : (tree.integrate arithmetic.toArithmetic "_u").outcome.isOk = true := by
    decide +kernel
  have matched : (Antiderivative.elementary arithmetic.toArithmetic "_u" tree "sin"
      argument).outcome.isOk = true := by
    decide +kernel
  refine ⟨fresh, ?_, ?_, ?_, ?_⟩
  · obtain ⟨result, made⟩ := exists_eq_ok_of_isOk differentiated
    exact ⟨result, made, slopes result made⟩
  · obtain ⟨result, made⟩ := exists_eq_ok_of_isOk factored
    exact ⟨result, made, factors _ result made⟩
  · obtain ⟨result, made⟩ := exists_eq_ok_of_isOk integrated
    exact ⟨result, made, integrals result made⟩
  · obtain ⟨result, made⟩ := exists_eq_ok_of_isOk matched
    exact ⟨result, made, fresh ▸ elementary _ _ result List.mem_cons_self occurs made⟩

end Expr

end ExprCalculus
