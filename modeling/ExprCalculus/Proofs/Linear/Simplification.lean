import ExprCalculus.Proofs.Linear.Collection
import ExprCalculus.Proofs.Simplification.Folding

/-!
# Simplifying linear expressions

Each rule makes a reduced expression of reduced operands, so a linear expression is
simplified to a reduced expression of the same form.  A difference is simplified to zero
if and only if the operands denote the same form, even if it is not exact itself, and a
simplified expression is collected to a sum with every variable once.
-/

namespace ExprCalculus

open Binary64 Simplification

variable {settings : Settings} {expression left right : Expr Float}
  {form leftForm rightForm : Form}

section Splitting

variable (settings) in
/-- A reduced expression is flattened to the terms of a multiple of its form. -/
theorem Reduced.lists_flatten (reduced : Reduced expression form) {scale : Float} {number : ℤ}
    (isScale : IsCoefficient scale number) (exact : Form.Exact (number • form)) :
    Term.Lists (Doubles.arithmetic settings) IsWhole
      (Term.flatten (Doubles.arithmetic settings) scale expression) (number • form) := by
  cases reduced with
  | zero whole =>
      have product := isScale.1.mul whole ⟨0.0, by rw [mul_zero]; exact isWhole_zero⟩
      have lists : Term.Lists (Doubles.arithmetic settings) IsWhole _ _ :=
        Term.lists_single (rfl : (⟨scale * _, none⟩ : Term Float).key? = some none) product
      rw [mul_zero, Pi.single_zero] at lists
      rw [Term.flatten_const, smul_zero]
      exact lists
  | tidy tidy =>
      exact (tidy.lists_flatten settings isScale exact).mono fun _ _ isCoefficient =>
        isCoefficient.1

theorem Reduced.lists_flatten_one (reduced : Reduced expression form) (exact : form.Exact) :
    Term.Lists (Doubles.arithmetic settings) IsWhole
      (Term.flatten (Doubles.arithmetic settings) (Doubles.arithmetic settings).one expression)
      form := by
  have isOne : IsCoefficient (ofInt 1) 1 := ⟨isWhole_one, by decide⟩
  have lists := reduced.lists_flatten settings isOne (by rwa [one_smul])
  rwa [one_smul] at lists

theorem Reduced.lists_flatten_minus_one (reduced : Reduced expression form) (exact : form.Exact) :
    Term.Lists (Doubles.arithmetic settings) IsWhole
      (Term.flatten (Doubles.arithmetic settings)
        ((Doubles.arithmetic settings).neg (Doubles.arithmetic settings).one) expression)
      (-form) := by
  have isMinusOne : IsCoefficient (-ofInt 1) (-1) := ⟨isWhole_one.neg, by decide⟩
  have lists := reduced.lists_flatten settings isMinusOne (by rw [neg_one_smul]; exact exact.neg)
  rwa [neg_one_smul] at lists

variable (positive : 0.0 < settings.epsilon) (atMostOne : settings.epsilon ≤ 1.0)
include positive atMostOne

/-- Merging two lists of terms gives the sums, and none of them is zero. -/
theorem lists_merge {leftTerms rightTerms : List (Term Float)}
    (isLeft : Term.Lists (Doubles.arithmetic settings) IsWhole leftTerms leftForm)
    (isRight : Term.Lists (Doubles.arithmetic settings) IsWhole rightTerms rightForm) :
    Term.Lists (Doubles.arithmetic settings)
      (fun coefficient number => IsRounded coefficient number ∧ number ≠ 0)
      (Term.merge (Doubles.arithmetic settings) (leftTerms ++ rightTerms))
      (leftForm + rightForm) := by
  have merged := isLeft.merge isRight (fun _ _ whole => whole.isRounded)
    (fun _ _ _ _ whole otherWhole => whole.add otherWhole)
  exact merged.filter fun coefficient number rounded =>
    rounded.apart_zero_iff positive atMostOne

theorem lists_split_add (isLeft : Reduced left leftForm) (isRight : Reduced right rightForm)
    (leftExact : leftForm.Exact) (rightExact : rightForm.Exact) :
    Term.Lists (Doubles.arithmetic settings)
      (fun coefficient number => IsRounded coefficient number ∧ number ≠ 0)
      (Term.split (Doubles.arithmetic settings) (left + right)) (leftForm + rightForm) := by
  rw [Term.split, Term.flatten_add]
  exact lists_merge positive atMostOne (isLeft.lists_flatten_one leftExact)
    (isRight.lists_flatten_one rightExact)

theorem lists_split_sub (isLeft : Reduced left leftForm) (isRight : Reduced right rightForm)
    (leftExact : leftForm.Exact) (rightExact : rightForm.Exact) :
    Term.Lists (Doubles.arithmetic settings)
      (fun coefficient number => IsRounded coefficient number ∧ number ≠ 0)
      (Term.split (Doubles.arithmetic settings) (left - right)) (leftForm - rightForm) := by
  rw [Term.split, Term.flatten_sub, sub_eq_add_neg]
  exact lists_merge positive atMostOne (isLeft.lists_flatten_one leftExact)
    (isRight.lists_flatten_minus_one rightExact)

/-- An expression with the terms of an exact form is collected to a reduced expression. -/
theorem reduced_collect (exact : form.Exact)
    (lists : Term.Lists (Doubles.arithmetic settings)
      (fun coefficient number => IsRounded coefficient number ∧ number ≠ 0)
      (Term.split (Doubles.arithmetic settings) expression) form) :
    Reduced (Term.collect (Doubles.arithmetic settings) expression) form :=
  reduced_join positive atMostOne (lists.mono fun _ key isNumber =>
    ⟨isNumber.1.exact (exact key), isNumber.2⟩)

end Splitting

section Rules

variable (positive : 0.0 < settings.epsilon) (atMostOne : settings.epsilon ≤ 1.0)
include positive atMostOne

theorem isConst_const_iff {value other : Float} {number second : ℤ} (whole : IsWhole value number)
    (otherWhole : IsWhole other second) :
    (Doubles.arithmetic settings).isConst other (.const value) = true ↔ number = second :=
  whole.near_iff positive atMostOne otherWhole

theorem Reduced.isConst_iff (reduced : Reduced expression form) {value : Float} {number : ℤ}
    (whole : IsWhole value number) :
    (Doubles.arithmetic settings).isConst value expression = true ↔
      expression.kind = .constant ∧ form = Pi.single none number := by
  by_cases constant : expression.kind = .constant
  · obtain ⟨other, otherNumber, rfl, otherWhole, rfl⟩ := reduced.exists_whole constant
    rw [isConst_const_iff positive atMostOne otherWhole whole, Pi.single_inj]
    exact ⟨fun same => ⟨rfl, same⟩, fun both => both.2⟩
  · rw [Arithmetic.isConst_of_kind _ constant]
    exact iff_of_false Bool.false_ne_true fun both => constant both.1

theorem Reduced.form_eq_zero (reduced : Reduced expression form)
    (isZero : (Doubles.arithmetic settings).isConst (Doubles.arithmetic settings).zero expression =
      true) : form = 0 := by
  have same := ((reduced.isConst_iff positive atMostOne isWhole_zero).mp isZero).2
  rwa [Pi.single_zero] at same

/-- A constant factor of a product is folded, dropped or kept. -/
theorem exists_productRule_left {value : Float} {number : ℤ} (whole : IsWhole value number)
    (tidy : Tidy right rightForm) (varies : right.kind ≠ .constant) :
    ∃ result, (productRule (Doubles.arithmetic settings) (.const value) right).outcome =
        .ok result ∧
      Reduced result (number • rightForm) := by
  have isFactor {other : Float} {second : ℤ} :=
    @isConst_const_iff settings positive atMostOne value other number second whole
  rw [productRule, Arithmetic.isConst_of_kind _ varies, Arithmetic.isConst_of_kind _ varies,
    Bool.or_false]
  split
  next isZero =>
    obtain rfl := (isFactor isWhole_zero).mp isZero
    rw [zero_smul]
    exact ⟨_, rfl, .zero isWhole_zero⟩
  next nonzero =>
    split
    next isOne =>
      obtain rfl := (isFactor isWhole_one).mp isOne
      rw [one_smul]
      exact ⟨_, rfl, .tidy tidy⟩
    · exact ⟨_, rfl, .tidy (.scaleLeft whole (mt (isFactor isWhole_zero).mpr nonzero) tidy varies)⟩

theorem exists_productRule_right {value : Float} {number : ℤ} (whole : IsWhole value number)
    (tidy : Tidy left leftForm) (varies : left.kind ≠ .constant) :
    ∃ result, (productRule (Doubles.arithmetic settings) left (.const value)).outcome =
        .ok result ∧
      Reduced result (number • leftForm) := by
  have isFactor {other : Float} {second : ℤ} :=
    @isConst_const_iff settings positive atMostOne value other number second whole
  -- Powers are merged over a common base that is no constant, and the base of a constant is
  -- the constant itself.
  have apart : ((asPower (Doubles.arithmetic settings) left).1.kind ≠ .constant &&
      (Doubles.arithmetic settings).sameExpr (asPower (Doubles.arithmetic settings) left).1
        (.const value)) = false := by
    by_cases constant : (asPower (Doubles.arithmetic settings) left).1.kind = .constant
    · simp [constant]
    · rw [Arithmetic.sameExpr_of_kind _ constant, Bool.and_false]
  rw [productRule, Arithmetic.isConst_of_kind _ varies, Arithmetic.isConst_of_kind _ varies,
    Bool.false_or]
  split
  next isZero =>
    obtain rfl := (isFactor isWhole_zero).mp isZero
    rw [zero_smul]
    exact ⟨_, rfl, .zero isWhole_zero⟩
  next nonzero =>
    rw [if_neg Bool.false_ne_true]
    split
    next isOne =>
      obtain rfl := (isFactor isWhole_one).mp isOne
      rw [one_smul]
      exact ⟨_, rfl, .tidy tidy⟩
    · refine ⟨left * .const value, ?_, .tidy (.scaleRight whole ?_ tidy varies)⟩
      · exact congrArg Traced.outcome (if_neg (Bool.eq_false_iff.mp apart))
      · exact mt (isFactor isWhole_zero).mpr nonzero

theorem reduced_sumRule (isLeft : Reduced left leftForm) (isRight : Reduced right rightForm)
    (leftExact : leftForm.Exact) (rightExact : rightForm.Exact)
    (exact : Form.Exact (leftForm + rightForm)) :
    Reduced (sumRule (Doubles.arithmetic settings) left right) (leftForm + rightForm) := by
  unfold sumRule
  split
  next leftZero =>
    rw [isLeft.form_eq_zero positive atMostOne leftZero, zero_add]
    exact isRight
  split
  next rightZero =>
    rw [isRight.form_eq_zero positive atMostOne rightZero, add_zero]
    exact isLeft
  · exact reduced_collect positive atMostOne exact
      (lists_split_add positive atMostOne isLeft isRight leftExact rightExact)

theorem reduced_differenceRule (isLeft : Reduced left leftForm) (isRight : Reduced right rightForm)
    (leftExact : leftForm.Exact) (rightExact : rightForm.Exact)
    (exact : Form.Exact (leftForm - rightForm)) :
    Reduced (differenceRule (Doubles.arithmetic settings) left right) (leftForm - rightForm) := by
  unfold differenceRule
  split
  next rightZero =>
    rw [isRight.form_eq_zero positive atMostOne rightZero, sub_zero]
    exact isLeft
  split
  next same =>
    rw [isLeft.form_eq_of_same positive atMostOne isRight same, sub_self]
    exact .zero isWhole_zero
  · exact reduced_collect positive atMostOne exact
      (lists_split_sub positive atMostOne isLeft isRight leftExact rightExact)

/-- The rule for differences gives zero only for operands of the same form; the difference
need not be exact. -/
theorem isZero_differenceRule_iff (isLeft : Reduced left leftForm)
    (isRight : Reduced right rightForm) (leftExact : leftForm.Exact)
    (rightExact : rightForm.Exact) :
    IsZero (differenceRule (Doubles.arithmetic settings) left right) ↔ leftForm = rightForm := by
  unfold differenceRule
  split
  next rightZero =>
    rw [isRight.form_eq_zero positive atMostOne rightZero]
    exact isLeft.isZero_iff
  split
  next same =>
    exact iff_of_true ⟨_, rfl, isWhole_zero⟩
      (isLeft.form_eq_of_same positive atMostOne isRight same)
  · rw [← sub_eq_zero]
    exact isZero_join_iff
      (lists_split_sub positive atMostOne isLeft isRight leftExact rightExact)

end Rules

section Nodes

variable {operand : Expr Float}

/-- The sign of a simplified linear expression is folded, cancelled or kept. -/
theorem exists_negation (reduced : Reduced operand form) :
    ∃ result, (unary (Doubles.arithmetic settings) .negate operand).outcome = .ok result ∧
      Reduced result (-form) := by
  by_cases constant : operand.kind = .constant
  · obtain ⟨value, number, rfl, whole, rfl⟩ := reduced.exists_whole constant
    refine ⟨.const (-value), unary_of_finite rfl whole.neg.isFinite, ?_⟩
    rw [← Pi.single_neg]
    exact .of_whole whole.neg
  · refine ⟨unaryRule .negate operand, ?_, ?_⟩
    · rw [unary_outcome, foldOver_of_not_constant _ List.mem_cons_self constant]
      rfl
    · have tidy := reduced.exists_tidy constant
      have kept : Reduced (.unary .negate operand) (-form) := .tidy (.negate tidy constant)
      cases tidy with
      | negate inner _ =>
          rw [neg_neg]
          exact .tidy inner
      | _ => exact kept

theorem binary_of_whole {operator : BinaryOperator} {leftValue rightValue : Float} {number : ℤ}
    (whole : IsWhole (Doubles.binary operator leftValue rightValue) number) :
    (binary (Doubles.arithmetic settings) operator (.const leftValue) (.const rightValue)).outcome =
      .ok (.const (Doubles.binary operator leftValue rightValue)) := by
  rw [binary_consts]
  exact if_pos whole.isFinite

variable (positive : 0.0 < settings.epsilon) (atMostOne : settings.epsilon ≤ 1.0)
include positive atMostOne

theorem exists_sum (isLeft : Reduced left leftForm) (isRight : Reduced right rightForm)
    (leftExact : leftForm.Exact) (rightExact : rightForm.Exact)
    (exact : Form.Exact (leftForm + rightForm)) :
    ∃ result, (binary (Doubles.arithmetic settings) .add left right).outcome = .ok result ∧
      Reduced result (leftForm + rightForm) := by
  by_cases constants : left.kind = .constant ∧ right.kind = .constant
  · obtain ⟨leftValue, leftNumber, rfl, leftWhole, rfl⟩ := isLeft.exists_whole constants.1
    obtain ⟨rightValue, rightNumber, rfl, rightWhole, rfl⟩ := isRight.exists_whole constants.2
    rw [← Pi.single_add] at exact ⊢
    have sum := (leftWhole.add rightWhole).exact exact.representable_single
    exact ⟨_, binary_of_whole sum, .of_whole sum⟩
  · exact ⟨_, binary_of_not_constants constants, reduced_sumRule positive atMostOne isLeft isRight
      leftExact rightExact exact⟩

theorem exists_difference (isLeft : Reduced left leftForm) (isRight : Reduced right rightForm)
    (leftExact : leftForm.Exact) (rightExact : rightForm.Exact)
    (exact : Form.Exact (leftForm - rightForm)) :
    ∃ result, (binary (Doubles.arithmetic settings) .subtract left right).outcome = .ok result ∧
      Reduced result (leftForm - rightForm) := by
  by_cases constants : left.kind = .constant ∧ right.kind = .constant
  · obtain ⟨leftValue, leftNumber, rfl, leftWhole, rfl⟩ := isLeft.exists_whole constants.1
    obtain ⟨rightValue, rightNumber, rfl, rightWhole, rfl⟩ := isRight.exists_whole constants.2
    rw [← Pi.single_sub] at exact ⊢
    have difference := (leftWhole.sub rightWhole).exact exact.representable_single
    exact ⟨_, binary_of_whole difference, .of_whole difference⟩
  · exact ⟨_, binary_of_not_constants constants, reduced_differenceRule positive atMostOne isLeft
      isRight leftExact rightExact exact⟩

/-- A difference of simplified operands becomes zero if and only if they denote the same
form.  It may be rounded, or even overflow. -/
theorem exists_zero_difference (isLeft : Reduced left leftForm)
    (isRight : Reduced right rightForm) (leftExact : leftForm.Exact)
    (rightExact : rightForm.Exact) :
    ∃ result, (binary (Doubles.arithmetic settings) .subtract left right).outcome = .ok result ∧
      (IsZero result ↔ leftForm = rightForm) := by
  have ruled := isZero_differenceRule_iff positive atMostOne isLeft isRight leftExact rightExact
  by_cases constants : left.kind = .constant ∧ right.kind = .constant
  · obtain ⟨leftValue, leftNumber, rfl, leftWhole, rfl⟩ := isLeft.exists_whole constants.1
    obtain ⟨rightValue, rightNumber, rfl, rightWhole, rfl⟩ := isRight.exists_whole constants.2
    rw [binary_consts]
    split
    next =>
      refine ⟨_, rfl, ?_⟩
      have rounded := leftWhole.sub rightWhole
      rw [Pi.single_inj, ← sub_eq_zero, ← rounded.isWhole_zero_iff]
      exact isZero_const_iff
    next => exact ⟨_, rfl, ruled⟩
  · exact ⟨_, binary_of_not_constants constants, ruled⟩

theorem exists_product_left {value : Float} {number : ℤ} (whole : IsWhole value number)
    (isRight : Reduced right rightForm) (exact : Form.Exact (number • rightForm)) :
    ∃ result, (binary (Doubles.arithmetic settings) .multiply (.const value) right).outcome =
        .ok result ∧
      Reduced result (number • rightForm) := by
  by_cases constant : right.kind = .constant
  · obtain ⟨rightValue, rightNumber, rfl, rightWhole, rfl⟩ := isRight.exists_whole constant
    rw [← Pi.single_smul', smul_eq_mul] at exact ⊢
    have product := whole.mul rightWhole exact.representable_single
    exact ⟨_, binary_of_whole product, .of_whole product⟩
  · rw [binary_of_not_constants fun both => constant both.2]
    exact exists_productRule_left positive atMostOne whole (isRight.exists_tidy constant) constant

theorem exists_product_right {value : Float} {number : ℤ} (whole : IsWhole value number)
    (isLeft : Reduced left leftForm) (exact : Form.Exact (number • leftForm)) :
    ∃ result, (binary (Doubles.arithmetic settings) .multiply left (.const value)).outcome =
        .ok result ∧
      Reduced result (number • leftForm) := by
  by_cases constant : left.kind = .constant
  · obtain ⟨leftValue, leftNumber, rfl, leftWhole, rfl⟩ := isLeft.exists_whole constant
    rw [← Pi.single_smul', smul_eq_mul, mul_comm] at exact ⊢
    have product := leftWhole.mul whole exact.representable_single
    exact ⟨_, binary_of_whole product, .of_whole product⟩
  · rw [binary_of_not_constants fun both => constant both.1]
    exact exists_productRule_right positive atMostOne whole (isLeft.exists_tidy constant) constant

end Nodes

/-- A sum of terms that writes every variable of a form once, with its coefficient. -/
structure IsCollected (settings : Settings) (expression : Expr Float) (form : Form) : Prop where
  linear : Linear expression form
  once : form.ListsVariables expression.occurrences
  terms : ∃ terms, expression = Term.join (Doubles.arithmetic settings) terms ∧
    Term.Lists (Doubles.arithmetic settings) IsCoefficient terms form

section Expressions

variable (positive : 0.0 < settings.epsilon) (atMostOne : settings.epsilon ≤ 1.0)
include positive atMostOne

/-- A linear expression is simplified to a reduced expression of the same form. -/
theorem Linear.exists_simplify (linear : Linear expression form) :
    ∃ result, (expression.simplify (Doubles.arithmetic settings)).outcome = .ok result ∧
      Reduced result form := by
  induction linear with
  | const whole => exact ⟨_, rfl, .of_whole whole⟩
  | var name => exact ⟨_, rfl, .tidy (.var name)⟩
  | negate _ ih =>
      obtain ⟨operand, simplified, reduced⟩ := ih
      rw [Expr.simplify, Traced.outcome_bind, simplified]
      exact exists_negation reduced
  | add isLeft isRight exact ihLeft ihRight =>
      obtain ⟨left, leftSimplified, leftReduced⟩ := ihLeft
      obtain ⟨right, rightSimplified, rightReduced⟩ := ihRight
      rw [Expr.simplify_binary_outcome leftSimplified rightSimplified]
      exact exists_sum positive atMostOne leftReduced rightReduced isLeft.exact isRight.exact exact
  | subtract isLeft isRight exact ihLeft ihRight =>
      obtain ⟨left, leftSimplified, leftReduced⟩ := ihLeft
      obtain ⟨right, rightSimplified, rightReduced⟩ := ihRight
      rw [Expr.simplify_binary_outcome leftSimplified rightSimplified]
      exact exists_difference positive atMostOne leftReduced rightReduced isLeft.exact
        isRight.exact exact
  | scaleLeft isLeft _ closed exact ihLeft ihRight =>
      obtain ⟨left, leftSimplified, leftReduced⟩ := ihLeft
      obtain ⟨right, rightSimplified, rightReduced⟩ := ihRight
      obtain ⟨value, number, rfl, whole, rfl⟩ :=
        leftReduced.exists_whole_of_closed (isLeft.form_some_eq_zero closed)
      rw [Pi.single_eq_same] at exact ⊢
      rw [Expr.simplify_binary_outcome leftSimplified rightSimplified]
      exact exists_product_left positive atMostOne whole rightReduced exact
  | scaleRight _ isRight closed exact ihLeft ihRight =>
      obtain ⟨left, leftSimplified, leftReduced⟩ := ihLeft
      obtain ⟨right, rightSimplified, rightReduced⟩ := ihRight
      obtain ⟨value, number, rfl, whole, rfl⟩ :=
        rightReduced.exists_whole_of_closed (isRight.form_some_eq_zero closed)
      rw [Pi.single_eq_same] at exact ⊢
      rw [Expr.simplify_binary_outcome leftSimplified rightSimplified]
      exact exists_product_right positive atMostOne whole leftReduced exact

/-- A reduced expression is split into the terms of its form. -/
theorem Reduced.lists_split (reduced : Reduced expression form) (exact : form.Exact) :
    Term.Lists (Doubles.arithmetic settings) IsCoefficient
      (Term.split (Doubles.arithmetic settings) expression) form := by
  have flattened : Term.Lists (Doubles.arithmetic settings) IsWhole _ form :=
    reduced.lists_flatten_one exact
  have merged := lists_merge positive atMostOne flattened Term.lists_nil
  rw [List.append_nil, add_zero] at merged
  exact merged.mono fun _ key isNumber => ⟨isNumber.1.exact (exact key), isNumber.2⟩

/-- Collecting a reduced expression writes every variable of its form once. -/
theorem Reduced.isCollected (reduced : Reduced expression form) (exact : form.Exact) :
    IsCollected settings (Term.collect (Doubles.arithmetic settings) expression) form := by
  have lists := reduced.lists_split positive atMostOne exact
  have collected := reduced_join positive atMostOne lists
  exact ⟨collected.linear exact, collected.lists_occurrences, _, rfl, lists⟩

/-- A difference of linear expressions is simplified to zero if and only if both denote the
same form; the difference itself need not be exact.  Collecting a simplified linear
expression writes every variable once with its coefficient. -/
theorem simplify_decides_linear_equality :
    (∀ {left right : Expr Float} {leftForm rightForm : Form}, Linear left leftForm →
      Linear right rightForm →
      ∃ result, ((left - right).simplify (Doubles.arithmetic settings)).outcome = .ok result ∧
        (IsZero result ↔ leftForm = rightForm)) ∧
    ∀ {expression : Expr Float} {form : Form}, Linear expression form →
      ∃ result, (expression.simplify (Doubles.arithmetic settings)).outcome = .ok result ∧
        IsCollected settings (Term.collect (Doubles.arithmetic settings) result) form := by
  constructor
  · intro left right leftForm rightForm isLeft isRight
    obtain ⟨simplifiedLeft, leftSimplified, leftReduced⟩ :=
      isLeft.exists_simplify positive atMostOne
    obtain ⟨simplifiedRight, rightSimplified, rightReduced⟩ :=
      isRight.exists_simplify positive atMostOne
    change ∃ result, ((Expr.binary .subtract left right).simplify _).outcome = .ok result ∧ _
    rw [Expr.simplify_binary_outcome leftSimplified rightSimplified]
    exact exists_zero_difference positive atMostOne leftReduced rightReduced isLeft.exact
      isRight.exact
  · intro expression form linear
    obtain ⟨result, simplified, reduced⟩ := linear.exists_simplify positive atMostOne
    exact ⟨result, simplified, reduced.isCollected positive atMostOne linear.exact⟩

end Expressions

/-- Twice `x + 1` is recognised as `x + (x + 2)`, and is written with one `x`. -/
theorem simplify_recognises_doubled_sum :
    let arithmetic := Doubles.arithmetic Settings.standard
    let doubled : Expr Float := .const (ofInt 2) * (.var "x" + .const (ofInt 1))
    let summed : Expr Float := .var "x" + (.var "x" + .const (ofInt 2))
    let form : Form := 2 • (Pi.single (some "x") 1 + Pi.single none 1)
    (∃ result, ((doubled - summed).simplify arithmetic).outcome = .ok result ∧ IsZero result) ∧
      ∃ result, (doubled.simplify arithmetic).outcome = .ok result ∧
        IsCollected Settings.standard (Term.collect arithmetic result) form := by
  intro arithmetic doubled summed form
  have positive : 0.0 < Settings.standard.epsilon := by decide +kernel
  have atMostOne : Settings.standard.epsilon ≤ 1.0 := by decide +kernel
  have two : IsWhole (ofInt 2) 2 := by
    unfold IsWhole
    decide +kernel
  have small {entry : Form} (bounded : ∀ key, (entry key).natAbs < 2 ^ 53) : entry.Exact :=
    fun key => representable_of_small (bounded key)
  have sum : Linear (.var "x" + .const (ofInt 1)) (Pi.single (some "x") 1 + Pi.single none 1) := by
    refine .add (.var "x") (.const isWhole_one) (small fun key => ?_)
    simp only [Pi.add_apply, Pi.single_apply]
    split_ifs <;> decide
  have isDoubled : Linear doubled form := by
    have product := Linear.scaleLeft (.const two) sum rfl (small fun key => ?_)
    · rwa [Pi.single_eq_same] at product
    · simp only [Pi.smul_apply, Pi.add_apply, Pi.single_apply]
      split_ifs <;> decide
  have isSummed : Linear summed
      (Pi.single (some "x") 1 + (Pi.single (some "x") 1 + Pi.single none 2)) := by
    refine .add (.var "x") (.add (.var "x") (.const two) (small fun key => ?_))
      (small fun key => ?_)
    all_goals
      simp only [Pi.add_apply, Pi.single_apply]
      split_ifs <;> decide
  have same : form = Pi.single (some "x") 1 + (Pi.single (some "x") 1 + Pi.single none 2) := by
    funext key
    simp only [form, Pi.smul_apply, Pi.add_apply, Pi.single_apply]
    split_ifs <;> decide
  obtain ⟨decides, collects⟩ := simplify_decides_linear_equality positive atMostOne
  obtain ⟨result, simplified, isZero⟩ := decides isDoubled isSummed
  exact ⟨⟨result, simplified, isZero.mpr same⟩, collects isDoubled⟩

end ExprCalculus
