import ExprCalculus.Proofs.Simplification.Meaning

/-!
# Simplified expressions

Folding a node gives the value that the node denotes, or leaves the node alone, so
the constructors of simplified expressions have a result wherever the rules keep the
value.  By induction an expression that is defined under a valuation has a
simplified form, which is defined there too and has the same value.
-/

namespace ExprCalculus

namespace Exact

open Simplification

variable {valuation : Valuation} {value : ℚ}

section Folding

/-- Without bindings and further functions an expression has the given value, or no
value for a reason that lies in the expression. -/
def FoldsTo (interpretation : Interpretation) (expression : Expr (Option ℚ)) (value : ℚ) : Prop :=
  expression.closedValue interpretation.arithmetic = .ok (some value) ∨
    ∃ fault, expression.closedValue interpretation.arithmetic = .error fault ∧
      fault.isOrdinary = true

theorem foldOver_of_foldsTo {interpretation : Interpretation}
    {operands : List (Expr (Option ℚ))} {expression : Expr (Option ℚ)}
    (folds : (∀ operand ∈ operands, operand.kind = .constant) →
      FoldsTo interpretation expression value) :
    (foldOver interpretation.arithmetic operands expression).outcome = .ok none ∨
      (foldOver interpretation.arithmetic operands expression).outcome =
        .ok (some (some value)) := by
  unfold foldOver
  split
  next constants =>
    have allConstant : ∀ operand ∈ operands, operand.kind = .constant := fun operand member =>
      of_decide_eq_true (List.all_eq_true.mp constants operand member)
    unfold fold
    rcases folds allConstant with closed | ⟨fault, closed, ordinary⟩
    · rw [closed]
      exact .inr rfl
    · rw [closed]
      dsimp only
      rw [if_pos ordinary]
      exact .inl rfl
  · exact .inl rfl

theorem foldsTo_unary {operator : UnaryOperator} {operand : Expr (Option ℚ)}
    (denotes : Denotes valuation (.unary operator operand) value)
    (constant : ∀ other ∈ [operand], other.kind = .constant) :
    FoldsTo valuation.interpretation (.unary operator operand) value := by
  rw [List.forall_mem_singleton] at constant
  obtain ⟨number, rfl⟩ := Expr.exists_const_of_kind constant
  exact .inl denotes

theorem foldsTo_binary {operator : BinaryOperator} {left right : Expr (Option ℚ)}
    (denotes : Denotes valuation (.binary operator left right) value)
    (constants : ∀ operand ∈ [left, right], operand.kind = .constant) :
    FoldsTo valuation.interpretation (.binary operator left right) value := by
  rw [List.forall_mem_cons, List.forall_mem_singleton] at constants
  obtain ⟨leftNumber, rfl⟩ := Expr.exists_const_of_kind constants.1
  obtain ⟨rightNumber, rfl⟩ := Expr.exists_const_of_kind constants.2
  exact .inl denotes

theorem evaluateAll_of_constant {α : Type} {arithmetic : Arithmetic α}
    (functions others : FunctionEnvironment α) (bindings otherBindings : String → Option α)
    {expressions : List (Expr α)} (constants : ∀ expression ∈ expressions,
      ∃ number, expression = .const number) :
    Expr.evaluateAll arithmetic functions bindings expressions =
      Expr.evaluateAll arithmetic others otherBindings expressions := by
  induction expressions with
  | nil => rw [Expr.evaluateAll, Expr.evaluateAll]
  | cons first rest ih =>
      rw [List.forall_mem_cons] at constants
      obtain ⟨⟨number, rfl⟩, restConstants⟩ := constants
      rw [Expr.evaluateAll, Expr.evaluateAll, ih restConstants, Expr.evaluate, Expr.evaluate]

/-- A call of a further function is not folded, since folding does not know it. -/
theorem foldsTo_call {name : String} {first : Expr (Option ℚ)} {others : List (Expr (Option ℚ))}
    (denotes : Denotes valuation (.call name first others) value)
    (constants : ∀ operand ∈ first :: others, operand.kind = .constant) :
    FoldsTo valuation.interpretation (.call name first others) value := by
  obtain ⟨firstValue, otherValues, firstDenotes, othersDenote, applied⟩ :=
    denotes_call.mp denotes
  rw [List.forall_mem_cons] at constants
  obtain ⟨number, rfl⟩ := Expr.exists_const_of_kind constants.1
  have isFirst := denotes_const.mp firstDenotes
  subst isFirst
  have closedOthers : Expr.evaluateAll valuation.interpretation.arithmetic [] (fun _ => none)
      others = .ok (otherValues.map some) := by
    rw [← othersDenote]
    exact evaluateAll_of_constant _ _ _ _ fun operand member =>
      Expr.exists_const_of_kind (constants.2 operand member)
  have closed : (Expr.call name (.const (some firstValue)) others).closedValue
      valuation.interpretation.arithmetic =
        valuation.interpretation.arithmetic.callByName [] name
          (some firstValue :: otherValues.map some) := by
    rw [Expr.closedValue, Expr.evaluate, closedOthers]
    rfl
  rw [FoldsTo, closed]
  unfold Arithmetic.callByName at applied ⊢
  split at applied
  next function named => exact .inl applied
  next => exact .inr ⟨.undefinedFunction name, rfl, rfl⟩

end Folding

section Constructors

variable {left right : Expr (Option ℚ)} {leftValue rightValue : ℚ}

theorem unary_represents {operator : UnaryOperator}
    (leftRepresents : Represents valuation left leftValue)
    (applied : valuation.interpretation.unaryValue operator (some leftValue) = .ok (some value)) :
    ∃ result,
      (unary valuation.interpretation.arithmetic operator left).outcome = .ok result ∧
      Represents valuation result value := by
  have denotes : Denotes valuation (.unary operator left) value :=
    denotes_unary.mpr ⟨leftValue, leftRepresents.denotes, applied⟩
  rw [unary_outcome]
  rcases foldOver_of_foldsTo (foldsTo_unary denotes) with unfolded | folded
  · rw [unfolded]
    exact ⟨_, rfl, unaryRule_represents leftRepresents applied⟩
  · rw [folded]
    exact ⟨_, rfl, represents_const value⟩

/-- The rule of an operator keeps the value; a power needs a whole exponent. -/
theorem binaryRule_represents {operator : BinaryOperator}
    (leftRepresents : Represents valuation left leftValue)
    (rightRepresents : Represents valuation right rightValue)
    (exponentWhole : operator = .power → IsWhole right)
    (combined : valuation.interpretation.binaryValue operator (some leftValue) (some rightValue) =
      some value) :
    ∃ result,
      (binaryRule valuation.interpretation.arithmetic operator left right).outcome =
        .ok result ∧
      Represents valuation result value := by
  cases operator with
  | add =>
      have isSum : leftValue + rightValue = value := Option.some.inj combined
      exact ⟨_, rfl, isSum ▸ sumRule_represents leftRepresents rightRepresents⟩
  | subtract =>
      have isDifference : leftValue - rightValue = value := Option.some.inj combined
      exact ⟨_, rfl, isDifference ▸ differenceRule_represents leftRepresents rightRepresents⟩
  | multiply =>
      have isProduct : leftValue * rightValue = value := Option.some.inj combined
      exact isProduct ▸ productRule_represents leftRepresents rightRepresents
  | divide =>
      have isQuotient : (if rightValue = 0 then none else some (leftValue / rightValue)) =
          some value := combined
      obtain ⟨nonzero, isValue⟩ := Option.ite_none_left_eq_some.mp isQuotient
      have same : leftValue / rightValue = value := Option.some.inj isValue
      exact ⟨_, rfl, same ▸ quotientRule_represents leftRepresents rightRepresents nonzero⟩
  | power =>
      obtain ⟨exponent, rfl⟩ := exponentWhole rfl
      have isExponent := rightRepresents.eq_of_const
      subst isExponent
      exact ⟨_, rfl, powerRule_represents leftRepresents combined⟩
  | modulo =>
      refine ⟨_, rfl, denotes_binary.mpr ⟨leftValue, rightValue, leftRepresents.denotes,
        rightRepresents.denotes, combined⟩, ?_⟩
      exact .binary (by decide) leftRepresents.whole rightRepresents.whole
  | logBase =>
      refine ⟨_, rfl, denotes_binary.mpr ⟨leftValue, rightValue, leftRepresents.denotes,
        rightRepresents.denotes, combined⟩, ?_⟩
      exact .binary (by decide) leftRepresents.whole rightRepresents.whole

theorem binary_represents {operator : BinaryOperator}
    (leftRepresents : Represents valuation left leftValue)
    (rightRepresents : Represents valuation right rightValue)
    (exponentWhole : operator = .power → IsWhole right)
    (combined : valuation.interpretation.binaryValue operator (some leftValue) (some rightValue) =
      some value) :
    ∃ result,
      (binary valuation.interpretation.arithmetic operator left right).outcome = .ok result ∧
      Represents valuation result value := by
  have denotes : Denotes valuation (.binary operator left right) value :=
    denotes_binary.mpr ⟨leftValue, rightValue, leftRepresents.denotes, rightRepresents.denotes,
      combined⟩
  rw [binary_outcome]
  rcases foldOver_of_foldsTo (foldsTo_binary denotes) with unfolded | folded
  · rw [unfolded]
    exact binaryRule_represents leftRepresents rightRepresents exponentWhole combined
  · rw [folded]
    exact ⟨_, rfl, represents_const value⟩

/-- Expressions have the given values, and their exponents are whole constants. -/
structure RepresentsAll (valuation : Valuation) (expressions : List (Expr (Option ℚ)))
    (values : List ℚ) : Prop where
  denote : DenotesAll valuation expressions values
  whole : Expr.ExponentsAreAll IsWhole expressions

theorem call_represents {name : String} {first : Expr (Option ℚ)}
    {others : List (Expr (Option ℚ))} {firstValue : ℚ} {otherValues : List ℚ}
    (firstRepresents : Represents valuation first firstValue)
    (othersRepresent : RepresentsAll valuation others otherValues)
    (applied : valuation.interpretation.arithmetic.callByName valuation.functions name
      (some firstValue :: otherValues.map some) = .ok (some value)) :
    ∃ result,
      (call valuation.interpretation.arithmetic name first others).outcome = .ok result ∧
      Represents valuation result value := by
  have denotes : Denotes valuation (.call name first others) value :=
    denotes_call.mpr ⟨firstValue, otherValues, firstRepresents.denotes, othersRepresent.denote,
      applied⟩
  rw [call_outcome]
  rcases foldOver_of_foldsTo (foldsTo_call denotes) with unfolded | folded
  · rw [unfolded]
    exact ⟨_, rfl, denotes, firstRepresents.whole, othersRepresent.whole⟩
  · rw [folded]
    exact ⟨_, rfl, represents_const value⟩

end Constructors

/-- A literal whole exponent is simplified to a whole constant. -/
theorem isWhole_of_simplify {interpretation : Interpretation}
    {expression result : Expr (Option ℚ)} (literal : IsWholeLiteral expression)
    (simplified : (expression.simplify interpretation.arithmetic).outcome = .ok result) :
    IsWhole result := by
  obtain ⟨number, rfl | rfl⟩ := literal
  · rw [Expr.simplify_const] at simplified
    cases simplified
    exact ⟨number, rfl⟩
  · have folded : ((Expr.unary .negate (.const (some (number : ℚ)))).simplify
        interpretation.arithmetic).outcome = .ok (.const (some (-(number : ℚ)))) := by
      rw [Expr.simplify, Expr.simplify]
      rfl
    rw [folded] at simplified
    cases simplified
    exact ⟨-number, by rw [Int.cast_neg]⟩

/-- An exponent is simplified to a whole constant, if it is simplified at all. -/
def SettlesWhole (interpretation : Interpretation) (exponent : Expr (Option ℚ)) : Prop :=
  ∀ {result}, (exponent.simplify interpretation.arithmetic).outcome = .ok result → IsWhole result

mutual

theorem represents_of_simplify {expression : Expr (Option ℚ)} {value : ℚ}
    (exponents : expression.ExponentsAre (SettlesWhole valuation.interpretation))
    (denotes : Denotes valuation expression value) :
    ∃ result,
      (expression.simplify valuation.interpretation.arithmetic).outcome = .ok result ∧
      Represents valuation result value := by
  match expression with
  | .const constant =>
      exact ⟨_, Expr.simplify_const_eq_ok.mpr rfl, denotes, trivial⟩
  | .var name =>
      exact ⟨_, Expr.simplify_var_eq_ok.mpr rfl, denotes, trivial⟩
  | .unary operator operand =>
      obtain ⟨operandValue, operandDenotes, applied⟩ := denotes_unary.mp denotes
      have operandExponents : operand.ExponentsAre (SettlesWhole valuation.interpretation) :=
        exponents
      obtain ⟨simplified, isSimplified, represents⟩ :=
        represents_of_simplify operandExponents operandDenotes
      obtain ⟨result, made, resultRepresents⟩ := unary_represents represents applied
      exact ⟨result, Expr.simplify_unary_eq_ok.mpr ⟨_, isSimplified, made⟩, resultRepresents⟩
  | .binary operator left right =>
      obtain ⟨leftValue, rightValue, leftDenotes, rightDenotes, combined⟩ :=
        denotes_binary.mp denotes
      obtain ⟨simplifiedLeft, isLeft, leftRepresents⟩ :=
        represents_of_simplify exponents.1 leftDenotes
      obtain ⟨simplifiedRight, isRight, rightRepresents⟩ :=
        represents_of_simplify exponents.2.1 rightDenotes
      obtain ⟨result, made, represents⟩ := binary_represents leftRepresents rightRepresents
        (fun isPower => exponents.2.2 isPower isRight) combined
      exact ⟨result, Expr.simplify_binary_eq_ok.mpr ⟨_, _, isLeft, isRight, made⟩, represents⟩
  | .call name first others =>
      obtain ⟨firstValue, otherValues, firstDenotes, othersDenote, applied⟩ :=
        denotes_call.mp denotes
      obtain ⟨simplifiedFirst, isFirst, firstRepresents⟩ :=
        represents_of_simplify exponents.1 firstDenotes
      obtain ⟨simplifiedOthers, areOthers, othersRepresent⟩ :=
        representsAll_of_simplifyAll exponents.2 othersDenote
      obtain ⟨result, made, represents⟩ := call_represents firstRepresents othersRepresent applied
      exact ⟨result, Expr.simplify_call_eq_ok.mpr ⟨_, _, isFirst, areOthers, made⟩, represents⟩
  | .integral integrand name =>
      unfold Denotes at denotes
      rw [Expr.evaluate] at denotes
      cases denotes

theorem representsAll_of_simplifyAll {expressions : List (Expr (Option ℚ))} {values : List ℚ}
    (exponents : Expr.ExponentsAreAll (SettlesWhole valuation.interpretation) expressions)
    (denote : DenotesAll valuation expressions values) :
    ∃ results,
      (Expr.simplifyAll valuation.interpretation.arithmetic expressions).outcome = .ok results ∧
      RepresentsAll valuation results values := by
  match expressions with
  | [] =>
      exact ⟨[], Expr.simplifyAll_eq_ok.mpr .nil, denote, trivial⟩
  | first :: rest =>
      obtain ⟨firstValue, restValues, rfl, firstDenotes, restDenote⟩ := denotesAll_cons.mp denote
      obtain ⟨simplifiedFirst, isFirst, firstRepresents⟩ :=
        represents_of_simplify exponents.1 firstDenotes
      obtain ⟨simplifiedRest, isRest, restRepresent⟩ :=
        representsAll_of_simplifyAll exponents.2 restDenote
      refine ⟨simplifiedFirst :: simplifiedRest,
        Expr.simplifyAll_eq_ok.mpr (.cons isFirst (Expr.simplifyAll_eq_ok.mp isRest)), ?_,
        firstRepresents.whole, restRepresent.whole⟩
      exact denotesAll_cons.mpr ⟨firstValue, restValues, rfl, firstRepresents.denotes,
        restRepresent.denote⟩

end

theorem simplify_represents {expression : Expr (Option ℚ)} {value : ℚ}
    (exponents : expression.ExponentsAre IsWholeLiteral)
    (denotes : Denotes valuation expression value) :
    ∃ result,
      (expression.simplify valuation.interpretation.arithmetic).outcome = .ok result ∧
      Represents valuation result value :=
  represents_of_simplify (exponents.mono fun _ literal _ => isWhole_of_simplify literal) denotes

/-- Wherever an expression with literal whole exponents is defined, its simplified
form exists, is defined and has the same value. -/
theorem simplify_preserves_value (valuation : Valuation) {expression : Expr (Option ℚ)} {value : ℚ}
    (exponents : expression.ExponentsAre IsWholeLiteral)
    (denotes : Denotes valuation expression value) :
    ∃ result,
      (expression.simplify valuation.interpretation.arithmetic).outcome = .ok result ∧
      Denotes valuation result value := by
  obtain ⟨result, simplified, represents⟩ := simplify_represents exponents denotes
  exact ⟨result, simplified, represents.denotes⟩

section Instance

/-- The variable is three, and only the exact operations are defined. -/
def atThree : Valuation where
  interpretation :=
    { unary := fun _ _ => .ok none
      binary := fun _ _ _ => none
      named? := fun _ => none
      sqrt := fun _ => none
      euler := none }
  functions := []
  strict := strict_nil
  bindings _ := some (some 3)

/-- A sum with powers to merge, a quotient to cancel and terms to collect. -/
def mixedSum : Expr (Option ℚ) :=
  .binary .power (.var "x") (.const (some (2 : ℤ))) *
      .binary .power (.var "x") (.unary .negate (.const (some (1 : ℤ)))) +
    .const (some 2) * .var "x" - .var "x" / .var "x"

theorem simplify_preserves_mixedSum :
    mixedSum.ExponentsAre IsWholeLiteral ∧ Denotes atThree mixedSum 8 ∧
      ∃ result,
        (mixedSum.simplify atThree.interpretation.arithmetic).outcome = .ok result ∧
        Denotes atThree result 8 := by
  have exponents : mixedSum.ExponentsAre IsWholeLiteral := by
    have square : IsWholeLiteral (.const (some (2 : ℤ))) := ⟨2, .inl rfl⟩
    have inverse : IsWholeLiteral (.unary .negate (.const (some (1 : ℤ)))) := ⟨1, .inr rfl⟩
    refine ⟨⟨⟨⟨trivial, trivial, fun _ => square⟩, ⟨trivial, trivial, fun _ => inverse⟩, nofun⟩,
      ⟨trivial, trivial, nofun⟩, nofun⟩, ⟨trivial, trivial, nofun⟩, nofun⟩
  have denotes : Denotes atThree mixedSum 8 := by
    have three : Denotes atThree (.var "x") 3 := rfl
    have squared : Denotes atThree (.binary .power (.var "x") (.const (some (2 : ℤ)))) 9 :=
      denotes_binary.mpr ⟨3, (2 : ℤ), three, denotes_const.mpr rfl,
        power_intCast_eq_some.mpr ⟨by norm_num, by norm_num⟩⟩
    have minusOne : Denotes atThree (.unary .negate (.const (some (1 : ℤ)))) (-1 : ℤ) :=
      denotes_neg.mpr ⟨(1 : ℤ), denotes_const.mpr rfl, Int.cast_neg 1⟩
    have inverted : Denotes atThree
        (.binary .power (.var "x") (.unary .negate (.const (some (1 : ℤ))))) (1 / 3) :=
      denotes_binary.mpr ⟨3, (-1 : ℤ), three, minusOne,
        power_intCast_eq_some.mpr ⟨by norm_num, by norm_num⟩⟩
    have doubled : Denotes atThree (.const (some 2) * .var "x") (2 * 3) :=
      (denotes_const.mpr rfl : Denotes atThree (.const (some 2)) 2).mul three
    have cancelled : Denotes atThree (.var "x" / .var "x") 1 :=
      denotes_binary.mpr ⟨3, 3, three, three, by decide +kernel⟩
    have total : (9 : ℚ) * (1 / 3) + 2 * 3 - 1 = 8 := by norm_num
    rw [← total]
    exact ((squared.mul inverted).add doubled).sub cancelled
  exact ⟨exponents, denotes, simplify_preserves_value atThree exponents denotes⟩

end Instance

end Exact

end ExprCalculus
