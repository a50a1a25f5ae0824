import ExprCalculus.Proofs.Linear.Expressions
import ExprCalculus.Proofs.Simplification.Idempotence

/-!
# Collected linear expressions

An expression is reduced if it is tidy or a constant that is zero.  Joining a list of
coefficients other than zero gives a reduced expression of the listed form, each variable
once.  Reduced expressions that count as the same denote the same form.
-/

namespace ExprCalculus

open Binary64

/-- A tidy expression, or a zero. -/
inductive Reduced : Expr Float → Form → Prop
  | zero {value : Float} (whole : IsWhole value 0) : Reduced (.const value) 0
  | tidy {expression : Expr Float} {form : Form} (tidy : Tidy expression form) :
      Reduced expression form

def IsZero (expression : Expr Float) : Prop :=
  ∃ value, expression = .const value ∧ IsWhole value 0

theorem isZero_const_iff {value : Float} : IsZero (.const value) ↔ IsWhole value 0 := by
  constructor
  · rintro ⟨_, ⟨⟩, whole⟩
    exact whole
  · exact fun whole => ⟨value, rfl, whole⟩

namespace Reduced

variable {expression : Expr Float} {form : Form}

theorem of_whole {value : Float} {number : ℤ} (whole : IsWhole value number) :
    Reduced (.const value) (Pi.single none number) := by
  by_cases isZero : number = 0
  · subst isZero
    rw [Pi.single_zero]
    exact .zero whole
  · exact .tidy (.const whole isZero)

theorem exists_whole (reduced : Reduced expression form) (constant : expression.kind = .constant) :
    ∃ value number, expression = .const value ∧ IsWhole value number ∧
      form = Pi.single none number := by
  cases reduced with
  | zero whole => exact ⟨_, 0, rfl, whole, (Pi.single_zero none).symm⟩
  | tidy tidy =>
      obtain ⟨value, number, isConst, whole, -, isForm⟩ := tidy.exists_whole constant
      exact ⟨value, number, isConst, whole, isForm⟩

theorem exists_tidy (reduced : Reduced expression form) (varies : expression.kind ≠ .constant) :
    Tidy expression form := by
  cases reduced with
  | zero => exact absurd rfl varies
  | tidy tidy => exact tidy

theorem linear (reduced : Reduced expression form) (exact : form.Exact) :
    Linear expression form := by
  cases reduced with
  | zero whole =>
      rw [← Pi.single_zero none]
      exact .const whole
  | tidy tidy => exact tidy.linear exact

theorem lists_occurrences (reduced : Reduced expression form) :
    form.ListsVariables expression.occurrences := by
  cases reduced with
  | zero => exact ⟨List.nodup_nil, fun name => iff_of_false List.not_mem_nil (not_not.mpr rfl)⟩
  | tidy tidy => exact tidy.lists_occurrences

/-- A reduced expression of a form without variables is a constant. -/
theorem exists_whole_of_closed (reduced : Reduced expression form)
    (closed : ∀ name, form (some name) = 0) :
    ∃ value number, expression = .const value ∧ IsWhole value number ∧
      form = Pi.single none number := by
  apply reduced.exists_whole
  by_contra varies
  obtain ⟨name, nonzero⟩ := (reduced.exists_tidy varies).exists_variable varies
  exact nonzero (closed name)

/-- A reduced expression is zero if its form is. -/
theorem isZero_iff (reduced : Reduced expression form) : IsZero expression ↔ form = 0 := by
  cases reduced with
  | zero whole => exact iff_of_true ⟨_, rfl, whole⟩ rfl
  | tidy tidy =>
      refine iff_of_false ?_ tidy.form_ne_zero
      rintro ⟨value, rfl, whole⟩
      cases tidy with
      | const otherWhole nonzero => exact nonzero (otherWhole.unique whole)

end Reduced

section Sameness

theorem sameExpr_unary {arithmetic : Arithmetic Float} {operator other : UnaryOperator}
    {first second : Expr Float} :
    arithmetic.sameExpr (.unary operator first) (.unary other second) = true ↔
      operator = other ∧ arithmetic.sameExpr first second = true := by
  simp [Arithmetic.sameExpr, Expr.sameBy]

theorem sameExpr_binary {arithmetic : Arithmetic Float} {operator other : BinaryOperator}
    {left right otherLeft otherRight : Expr Float} :
    arithmetic.sameExpr (.binary operator left right) (.binary other otherLeft otherRight) = true ↔
      operator = other ∧ arithmetic.sameExpr left otherLeft = true ∧
        arithmetic.sameExpr right otherRight = true := by
  simp [Arithmetic.sameExpr, Expr.sameBy, and_assoc]

variable {settings : Settings} (positive : 0.0 < settings.epsilon)
  (atMostOne : settings.epsilon ≤ 1.0)
include positive atMostOne

/-- Tidy expressions that count as the same denote the same form. -/
theorem Tidy.form_eq_of_same {first second : Expr Float} {form other : Form}
    (tidy : Tidy first form) (otherTidy : Tidy second other)
    (same : (Doubles.arithmetic settings).sameExpr first second = true) : form = other := by
  induction tidy generalizing second other with
  | const whole _ =>
      cases otherTidy with
      | const otherWhole _ =>
          rw [whole.eq_of_same positive atMostOne otherWhole same]
      | _ => cases same
  | var name =>
      cases otherTidy with
      | var otherName => rw [of_decide_eq_true same]
      | _ => cases same
  | negate _ _ ih =>
      cases otherTidy with
      | negate otherTidy _ => rw [ih otherTidy (sameExpr_unary.mp same).2]
      | _ => cases same
  | add _ _ _ ihLeft ihRight =>
      cases otherTidy with
      | add isLeft isRight _ =>
          obtain ⟨-, sameLeft, sameRight⟩ := sameExpr_binary.mp same
          rw [ihLeft isLeft sameLeft, ihRight isRight sameRight]
      | _ => cases same
  | subtract _ _ _ ihLeft ihRight =>
      cases otherTidy with
      | subtract isLeft isRight _ =>
          obtain ⟨-, sameLeft, sameRight⟩ := sameExpr_binary.mp same
          rw [ihLeft isLeft sameLeft, ihRight isRight sameRight]
      | _ => cases same
  | scaleLeft whole _ _ _ ih =>
      cases otherTidy with
      | scaleLeft otherWhole _ otherTidy _ =>
          obtain ⟨-, sameLeft, sameRight⟩ := sameExpr_binary.mp same
          rw [ih otherTidy sameRight, whole.eq_of_same positive atMostOne otherWhole sameLeft]
      | scaleRight _ _ _ varies =>
          obtain ⟨-, sameLeft, -⟩ := sameExpr_binary.mp same
          exact absurd (Expr.kind_eq_of_sameBy sameLeft).symm varies
      | _ => cases same
  | scaleRight whole _ _ varies ih =>
      cases otherTidy with
      | scaleRight otherWhole _ otherTidy _ =>
          obtain ⟨-, sameLeft, sameRight⟩ := sameExpr_binary.mp same
          rw [ih otherTidy sameLeft, whole.eq_of_same positive atMostOne otherWhole sameRight]
      | scaleLeft _ _ _ _ =>
          obtain ⟨-, sameLeft, -⟩ := sameExpr_binary.mp same
          exact absurd (Expr.kind_eq_of_sameBy sameLeft) varies
      | _ => cases same

/-- Reduced expressions that count as the same denote the same form. -/
theorem Reduced.form_eq_of_same {first second : Expr Float} {form other : Form}
    (reduced : Reduced first form) (otherReduced : Reduced second other)
    (same : (Doubles.arithmetic settings).sameExpr first second = true) : form = other := by
  have sameKind : first.kind = second.kind := Expr.kind_eq_of_sameBy same
  by_cases constant : first.kind = .constant
  · obtain ⟨_, _, rfl, whole, rfl⟩ := reduced.exists_whole constant
    obtain ⟨_, _, rfl, otherWhole, rfl⟩ := otherReduced.exists_whole (sameKind ▸ constant)
    rw [whole.eq_of_same positive atMostOne otherWhole same]
  · exact (reduced.exists_tidy constant).form_eq_of_same positive atMostOne
      (otherReduced.exists_tidy (sameKind ▸ constant)) same

end Sameness

section Joining

variable {settings : Settings} {terms : List (Term Float)} {term : Term Float} {form : Form}

/-- Terms with coefficients away from zero are joined to a zero only if there are none. -/
theorem isZero_join_iff
    (lists : Term.Lists (Doubles.arithmetic settings)
      (fun coefficient number => IsRounded coefficient number ∧ number ≠ 0) terms form) :
    IsZero (Term.join (Doubles.arithmetic settings) terms) ↔ form = 0 := by
  cases terms with
  | nil => exact iff_of_true ⟨_, rfl, isWhole_zero⟩ (funext fun key => lists.entry key)
  | cons first rest =>
      obtain ⟨key, number, others, isKey, ⟨rounded, nonzero⟩, zero, -, rfl⟩ := lists.uncons
      refine iff_of_false ?_ fun isZero => ?_
      · rintro ⟨value, isConst, whole⟩
        rcases Term.join_cases (Doubles.arithmetic settings) (List.cons_ne_nil first rest) with
          ⟨only, isOnly, written⟩ | ⟨left, right, sum | sum⟩
        · cases isOnly
          rw [written, Term.key?_eq_some.mp isKey] at isConst
          cases key with
          | none =>
              cases isConst
              exact nonzero (rounded.isWhole_zero_iff.mp whole)
          | some name =>
              have atomic : Term.isAtomic (.var name : Expr Float) = true := rfl
              exact Term.kind_toExpr atomic (congrArg Expr.kind isConst)
        · cases sum.symm.trans isConst
        · cases sum.symm.trans isConst
      · have atKey := congrFun isZero key
        rw [Pi.add_apply, Pi.single_eq_same, zero, add_zero] at atKey
        exact nonzero atKey

variable (positive : 0.0 < settings.epsilon) (atMostOne : settings.epsilon ≤ 1.0)
include positive atMostOne

/-- A term with a coefficient other than zero is written as a tidy expression. -/
theorem tidy_toExpr {coefficient : Float} {number : ℤ} (isNumber : IsCoefficient coefficient number)
    (key : Option String) :
    Tidy (Term.toExpr (Doubles.arithmetic settings) coefficient (key.map .var))
      (Pi.single key number) := by
  obtain ⟨whole, nonzero⟩ := isNumber
  cases key with
  | none => exact .const whole nonzero
  | some name =>
      have minusOne : IsWhole (ofInt (-1)) (-1) := by
        rw [← neg_ofInt_one]
        exact isWhole_one.neg
      have varies : (Expr.var name : Expr Float).kind ≠ .constant :=
        fun constant => by cases constant
      rw [Option.map_some, Term.toExpr]
      split
      next near =>
        rw [(whole.near_iff positive atMostOne isWhole_one).mp near]
        exact .var name
      split
      next near =>
        rw [(whole.near_iff positive atMostOne minusOne).mp near, Pi.single_neg]
        exact .negate (.var name) varies
      · have scaled := Tidy.scaleLeft whole nonzero (.var name) varies
        rwa [← Pi.single_smul', smul_eq_mul, mul_one] at scaled

/-- Adding a term with a new key to a tidy sum gives a tidy sum. -/
theorem tidy_appendTo {sum : Expr Float} {key : Option String} {number : ℤ} (tidy : Tidy sum form)
    (isKey : term.key? = some key) (isNumber : IsCoefficient term.coefficient number)
    (new : form key = 0) :
    Tidy (Term.appendTo (Doubles.arithmetic settings) sum term) (form + Pi.single key number) := by
  have disjoint (number : ℤ) (other : Option String) :
      form other = 0 ∨ (Pi.single key number : Form) other = 0 := by
    by_cases same : other = key
    · exact .inl (same ▸ new)
    · exact .inr (Pi.single_eq_of_ne same _)
  rw [Term.appendTo, Term.key?_eq_some.mp isKey]
  split
  · have opposite : IsCoefficient (-term.coefficient) (-number) :=
      ⟨isNumber.1.neg, neg_ne_zero.mpr isNumber.2⟩
    have difference :=
      Tidy.subtract tidy (tidy_toExpr positive atMostOne opposite key) (disjoint (-number))
    rwa [Pi.single_neg, sub_neg_eq_add] at difference
  · exact .add tidy (tidy_toExpr positive atMostOne isNumber key) (disjoint number)

theorem tidy_foldl_appendTo {sum : Expr Float} {other : Form} (tidy : Tidy sum form)
    (lists : Term.Lists (Doubles.arithmetic settings) IsCoefficient terms other)
    (disjoint : ∀ key, form key = 0 ∨ other key = 0) :
    Tidy (terms.foldl (Term.appendTo (Doubles.arithmetic settings)) sum) (form + other) := by
  induction terms generalizing sum form other with
  | nil =>
      have isZero : other = 0 := funext fun key => lists.entry key
      rwa [isZero, add_zero]
  | cons first rest ih =>
      obtain ⟨key, number, others, isKey, isNumber, zero, restLists, rfl⟩ := lists.uncons
      have new : form key = 0 := by
        refine (disjoint key).resolve_right ?_
        rw [Pi.add_apply, Pi.single_eq_same, zero, add_zero]
        exact isNumber.2
      rw [← add_assoc]
      refine ih (tidy_appendTo positive atMostOne tidy isKey isNumber new) restLists fun other => ?_
      by_cases same : other = key
      · exact .inr (same ▸ zero)
      · have apart := disjoint other
        rw [Pi.add_apply, Pi.single_eq_of_ne same, zero_add] at apart
        rwa [Pi.add_apply, Pi.single_eq_of_ne same, add_zero]

/-- The terms of a form are joined to a reduced expression of the form. -/
theorem reduced_join (lists : Term.Lists (Doubles.arithmetic settings) IsCoefficient terms form) :
    Reduced (Term.join (Doubles.arithmetic settings) terms) form := by
  cases terms with
  | nil =>
      have isZero : form = 0 := funext fun key => lists.entry key
      rw [isZero]
      exact .zero isWhole_zero
  | cons first rest =>
      obtain ⟨key, number, others, isKey, isNumber, zero, restLists, rfl⟩ := lists.uncons
      rw [Term.join, Term.key?_eq_some.mp isKey]
      refine .tidy (tidy_foldl_appendTo positive atMostOne
        (tidy_toExpr positive atMostOne isNumber key) restLists fun other => ?_)
      by_cases same : other = key
      · exact .inr (same ▸ zero)
      · exact .inl (Pi.single_eq_of_ne same _)

end Joining

end ExprCalculus
