import ExprCalculus.Proofs.Doubles.Equality
import ExprCalculus.Proofs.Linear.Terms

/-!
# Linear expressions

A linear expression is built from whole constants and variables by sums, differences,
signs and products with a factor without variables, and it denotes an affine form.  What
simplification makes of it is tidy: the terms of a sum are different and none of them
vanishes, and the factor of a product is one constant.  A tidy expression flattens to the
list of its form, and a list of a form is joined to a tidy expression.
-/

namespace ExprCalculus

open Binary64

def Form.Exact (form : Form) : Prop :=
  ∀ key, Representable (form key)

/-- An expression is linear and denotes an affine form; the coefficients of each of its
parts are doubles. -/
inductive Linear : Expr Float → Form → Prop
  | const {value : Float} {number : ℤ} (whole : IsWhole value number) :
      Linear (.const value) (Pi.single none number)
  | var (name : String) : Linear (.var name) (Pi.single (some name) 1)
  | negate {operand : Expr Float} {form : Form} (linear : Linear operand form) :
      Linear (.unary .negate operand) (-form)
  | add {left right : Expr Float} {leftForm rightForm : Form} (isLeft : Linear left leftForm)
      (isRight : Linear right rightForm) (exact : Form.Exact (leftForm + rightForm)) :
      Linear (.binary .add left right) (leftForm + rightForm)
  | subtract {left right : Expr Float} {leftForm rightForm : Form} (isLeft : Linear left leftForm)
      (isRight : Linear right rightForm) (exact : Form.Exact (leftForm - rightForm)) :
      Linear (.binary .subtract left right) (leftForm - rightForm)
  | scaleLeft {left right : Expr Float} {leftForm rightForm : Form} (isLeft : Linear left leftForm)
      (isRight : Linear right rightForm) (closed : left.isConstant = true)
      (exact : Form.Exact (leftForm none • rightForm)) :
      Linear (.binary .multiply left right) (leftForm none • rightForm)
  | scaleRight {left right : Expr Float} {leftForm rightForm : Form} (isLeft : Linear left leftForm)
      (isRight : Linear right rightForm) (closed : right.isConstant = true)
      (exact : Form.Exact (rightForm none • leftForm)) :
      Linear (.binary .multiply left right) (rightForm none • leftForm)

namespace Form

variable {form : Form} {number : ℤ}

theorem representable_neg {number : ℤ} (representable : Representable number) :
    Representable (-number) := by
  obtain ⟨value, whole⟩ := representable
  exact ⟨-value, whole.neg⟩

theorem exact_single (key : Option String) (representable : Representable number) :
    Exact (Pi.single key number) := by
  intro other
  by_cases same : other = key
  · rwa [same, Pi.single_eq_same]
  · rw [Pi.single_eq_of_ne same]
    exact ⟨_, isWhole_zero⟩

theorem Exact.representable_single (exact : Exact (Pi.single none number)) :
    Representable number := by
  have atNone := exact none
  rwa [Pi.single_eq_same] at atNone

theorem Exact.neg (exact : Exact form) : Exact (-form) :=
  fun key => representable_neg (exact key)

theorem Exact.of_neg (exact : Exact (-form)) : Exact form := by
  simpa using exact.neg

/-- A form is exact if a multiple of it other than zero is. -/
theorem Exact.of_smul (exact : Exact (number • form)) (nonzero : number ≠ 0) : Exact form := by
  intro key
  by_cases zero : form key = 0
  · rw [zero]
    exact ⟨_, isWhole_zero⟩
  · exact (exact key).of_dvd (mul_ne_zero nonzero zero) (Dvd.intro_left number rfl)

/-- The factor of an exact form other than zero is a double. -/
theorem Exact.factor (exact : Exact (number • form)) (nonzero : form ≠ 0) :
    Representable number := by
  obtain ⟨key, nonzeroAt⟩ := Function.ne_iff.mp nonzero
  by_cases zero : number = 0
  · rw [zero]
    exact ⟨_, isWhole_zero⟩
  · exact (exact key).of_dvd (mul_ne_zero zero nonzeroAt) (Dvd.intro _ rfl)

/-- Forms without a common key are exact if their sum is. -/
theorem Exact.of_disjoint {other : Form} (exact : Exact (form + other))
    (disjoint : ∀ key, form key = 0 ∨ other key = 0) : Exact form ∧ Exact other := by
  have zero : Representable 0 := ⟨_, isWhole_zero⟩
  have both (key : Option String) : Representable (form key) ∧ Representable (other key) := by
    have sum := exact key
    rw [Pi.add_apply] at sum
    rcases disjoint key with isZero | isZero
    · rw [isZero, zero_add] at sum
      exact ⟨isZero ▸ zero, sum⟩
    · rw [isZero, add_zero] at sum
      exact ⟨sum, isZero ▸ zero⟩
  exact ⟨fun key => (both key).1, fun key => (both key).2⟩

/-- A list has the variables with a coefficient other than zero, each once. -/
structure ListsVariables (form : Form) (names : List String) : Prop where
  nodup : names.Nodup
  mem_iff : ∀ name, name ∈ names ↔ form (some name) ≠ 0

theorem ListsVariables.nodup_append {other : Form} {names others : List String}
    (lists : form.ListsVariables names) (otherLists : other.ListsVariables others)
    (disjoint : ∀ key, form key = 0 ∨ other key = 0) : (names ++ others).Nodup := by
  refine List.nodup_append.mpr ⟨lists.nodup, otherLists.nodup, ?_⟩
  rintro name member _ otherMember rfl
  rcases disjoint (some name) with zero | zero
  · exact (lists.mem_iff name).mp member zero
  · exact (otherLists.mem_iff name).mp otherMember zero

end Form

namespace Linear

variable {expression : Expr Float} {form : Form}

theorem exact (linear : Linear expression form) : form.Exact := by
  induction linear with
  | const whole => exact Form.exact_single none ⟨_, whole⟩
  | var name => exact Form.exact_single (some name) ⟨_, isWhole_one⟩
  | negate _ ih => exact ih.neg
  | add _ _ exact | subtract _ _ exact | scaleLeft _ _ _ exact | scaleRight _ _ _ exact =>
      exact exact

/-- An expression without variables denotes a constant. -/
theorem form_some_eq_zero (linear : Linear expression form) (closed : expression.isConstant = true)
    (name : String) : form (some name) = 0 := by
  have none := List.isEmpty_iff.mp closed
  induction linear with
  | const whole => exact Pi.single_eq_of_ne (by simp) _
  | var name => cases none
  | negate _ ih => rw [Pi.neg_apply, ih closed none, neg_zero]
  | add _ _ _ ihLeft ihRight =>
      obtain ⟨leftNone, rightNone⟩ := List.append_eq_nil_iff.mp none
      rw [Pi.add_apply, ihLeft (List.isEmpty_iff.mpr leftNone) leftNone,
        ihRight (List.isEmpty_iff.mpr rightNone) rightNone, add_zero]
  | subtract _ _ _ ihLeft ihRight =>
      obtain ⟨leftNone, rightNone⟩ := List.append_eq_nil_iff.mp none
      rw [Pi.sub_apply, ihLeft (List.isEmpty_iff.mpr leftNone) leftNone,
        ihRight (List.isEmpty_iff.mpr rightNone) rightNone, sub_zero]
  | scaleLeft _ _ _ _ _ ihRight =>
      have rightNone := (List.append_eq_nil_iff.mp none).2
      rw [Pi.smul_apply, ihRight (List.isEmpty_iff.mpr rightNone) rightNone, smul_zero]
  | scaleRight _ _ _ _ ihLeft _ =>
      have leftNone := (List.append_eq_nil_iff.mp none).1
      rw [Pi.smul_apply, ihLeft (List.isEmpty_iff.mpr leftNone) leftNone, smul_zero]

end Linear

/-- A double stands for a whole number other than zero. -/
def IsCoefficient (value : Float) (number : ℤ) : Prop :=
  IsWhole value number ∧ number ≠ 0

/-- A linear expression without superfluous parts, and the form that it denotes. -/
inductive Tidy : Expr Float → Form → Prop
  | const {value : Float} {number : ℤ} (whole : IsWhole value number) (nonzero : number ≠ 0) :
      Tidy (.const value) (Pi.single none number)
  | var (name : String) : Tidy (.var name) (Pi.single (some name) 1)
  | negate {operand : Expr Float} {form : Form} (tidy : Tidy operand form)
      (varies : operand.kind ≠ .constant) : Tidy (.unary .negate operand) (-form)
  | add {left right : Expr Float} {leftForm rightForm : Form} (isLeft : Tidy left leftForm)
      (isRight : Tidy right rightForm) (disjoint : ∀ key, leftForm key = 0 ∨ rightForm key = 0) :
      Tidy (.binary .add left right) (leftForm + rightForm)
  | subtract {left right : Expr Float} {leftForm rightForm : Form} (isLeft : Tidy left leftForm)
      (isRight : Tidy right rightForm) (disjoint : ∀ key, leftForm key = 0 ∨ rightForm key = 0) :
      Tidy (.binary .subtract left right) (leftForm - rightForm)
  | scaleLeft {value : Float} {number : ℤ} {right : Expr Float} {form : Form}
      (whole : IsWhole value number) (nonzero : number ≠ 0) (tidy : Tidy right form)
      (varies : right.kind ≠ .constant) :
      Tidy (.binary .multiply (.const value) right) (number • form)
  | scaleRight {value : Float} {number : ℤ} {left : Expr Float} {form : Form}
      (whole : IsWhole value number) (nonzero : number ≠ 0) (tidy : Tidy left form)
      (varies : left.kind ≠ .constant) :
      Tidy (.binary .multiply left (.const value)) (number • form)

namespace Tidy

variable {expression : Expr Float} {form : Form}

theorem exists_whole (tidy : Tidy expression form) (constant : expression.kind = .constant) :
    ∃ value number, expression = .const value ∧ IsWhole value number ∧ number ≠ 0 ∧
      form = Pi.single none number := by
  cases tidy with
  | const whole nonzero => exact ⟨_, _, rfl, whole, nonzero, rfl⟩
  | _ => cases constant

/-- Of two tidy expressions without a common key one varies with a variable that the other
does not vary with: they are not both constants. -/
theorem exists_variable_of_disjoint {left right : Expr Float} {leftForm rightForm : Form}
    (isLeft : Tidy left leftForm) (isRight : Tidy right rightForm)
    (disjoint : ∀ key, leftForm key = 0 ∨ rightForm key = 0)
    (leftVaries : left.kind ≠ .constant → ∃ name, leftForm (some name) ≠ 0)
    (rightVaries : right.kind ≠ .constant → ∃ name, rightForm (some name) ≠ 0) :
    ∃ name, leftForm (some name) ≠ 0 ∧ rightForm (some name) = 0 ∨
      leftForm (some name) = 0 ∧ rightForm (some name) ≠ 0 := by
  by_cases leftConstant : left.kind = .constant
  · by_cases rightConstant : right.kind = .constant
    · obtain ⟨_, _, _, _, leftNonzero, rfl⟩ := isLeft.exists_whole leftConstant
      obtain ⟨_, _, _, _, rightNonzero, rfl⟩ := isRight.exists_whole rightConstant
      rcases disjoint none with zero | zero
      · exact absurd ((Pi.single_eq_same none _).symm.trans zero) leftNonzero
      · exact absurd ((Pi.single_eq_same none _).symm.trans zero) rightNonzero
    · obtain ⟨name, nonzero⟩ := rightVaries rightConstant
      exact ⟨name, .inr ⟨(disjoint _).resolve_right nonzero, nonzero⟩⟩
  · obtain ⟨name, nonzero⟩ := leftVaries leftConstant
    exact ⟨name, .inl ⟨nonzero, (disjoint _).resolve_left nonzero⟩⟩

/-- A tidy expression that is no constant varies with some variable. -/
theorem exists_variable (tidy : Tidy expression form) (varies : expression.kind ≠ .constant) :
    ∃ name, form (some name) ≠ 0 := by
  induction tidy with
  | const whole nonzero => exact absurd rfl varies
  | var name => exact ⟨name, by rw [Pi.single_eq_same]; exact one_ne_zero⟩
  | negate _ operandVaries ih =>
      obtain ⟨name, nonzero⟩ := ih operandVaries
      exact ⟨name, neg_ne_zero.mpr nonzero⟩
  | scaleLeft whole nonzero _ rightVaries ih =>
      obtain ⟨name, nonzeroAt⟩ := ih rightVaries
      exact ⟨name, mul_ne_zero nonzero nonzeroAt⟩
  | scaleRight whole nonzero _ leftVaries ih =>
      obtain ⟨name, nonzeroAt⟩ := ih leftVaries
      exact ⟨name, mul_ne_zero nonzero nonzeroAt⟩
  | add isLeft isRight disjoint ihLeft ihRight =>
      obtain ⟨name, ⟨nonzero, zero⟩ | ⟨zero, nonzero⟩⟩ :=
        isLeft.exists_variable_of_disjoint isRight disjoint ihLeft ihRight
      · exact ⟨name, by rwa [Pi.add_apply, zero, add_zero]⟩
      · exact ⟨name, by rwa [Pi.add_apply, zero, zero_add]⟩
  | subtract isLeft isRight disjoint ihLeft ihRight =>
      obtain ⟨name, ⟨nonzero, zero⟩ | ⟨zero, nonzero⟩⟩ :=
        isLeft.exists_variable_of_disjoint isRight disjoint ihLeft ihRight
      · exact ⟨name, by rwa [Pi.sub_apply, zero, sub_zero]⟩
      · exact ⟨name, by rwa [Pi.sub_apply, zero, zero_sub, neg_ne_zero]⟩

theorem form_ne_zero (tidy : Tidy expression form) : form ≠ 0 := by
  rintro rfl
  by_cases constant : expression.kind = .constant
  · obtain ⟨_, number, _, _, nonzero, isZero⟩ := tidy.exists_whole constant
    have atNone := congrFun isZero none
    rw [Pi.single_eq_same] at atNone
    exact nonzero atNone.symm
  · obtain ⟨_, nonzero⟩ := tidy.exists_variable constant
    exact nonzero rfl

/-- A tidy expression of an exact form is linear. -/
theorem linear (tidy : Tidy expression form) (exact : form.Exact) : Linear expression form := by
  induction tidy with
  | const whole _ => exact .const whole
  | var name => exact .var name
  | negate _ _ ih => exact .negate (ih exact.of_neg)
  | add _ _ disjoint ihLeft ihRight =>
      obtain ⟨leftExact, rightExact⟩ := exact.of_disjoint disjoint
      exact .add (ihLeft leftExact) (ihRight rightExact) exact
  | subtract _ _ disjoint ihLeft ihRight =>
      have parts := exact
      rw [sub_eq_add_neg] at parts
      obtain ⟨leftExact, rightExact⟩ := parts.of_disjoint fun key =>
        (disjoint key).imp_right neg_eq_zero.mpr
      exact .subtract (ihLeft leftExact) (ihRight rightExact.of_neg) exact
  | @scaleLeft _ number _ _ whole nonzero _ _ ih =>
      have factor : (Pi.single none number : Form) none = number := by rw [Pi.single_eq_same]
      have scaled := Linear.scaleLeft (.const whole) (ih (exact.of_smul nonzero)) rfl
        (by rwa [factor])
      rwa [factor] at scaled
  | @scaleRight _ number _ _ whole nonzero _ _ ih =>
      have factor : (Pi.single none number : Form) none = number := by rw [Pi.single_eq_same]
      have scaled := Linear.scaleRight (ih (exact.of_smul nonzero)) (.const whole) rfl
        (by rwa [factor])
      rwa [factor] at scaled

/-- The variables of a tidy expression are those of its form, and each occurs once. -/
theorem lists_occurrences (tidy : Tidy expression form) :
    form.ListsVariables expression.occurrences := by
  induction tidy with
  | const whole _ =>
      refine ⟨List.nodup_nil, fun name => iff_of_false List.not_mem_nil ?_⟩
      rw [Pi.single_eq_of_ne (Option.some_ne_none name), not_not]
  | var name =>
      refine ⟨List.nodup_singleton name, fun other => ?_⟩
      by_cases same : other = name
      · subst same
        rw [Pi.single_eq_same]
        exact iff_of_true (List.mem_singleton_self other) one_ne_zero
      · rw [Pi.single_eq_of_ne (mt Option.some.inj same)]
        exact iff_of_false (mt List.mem_singleton.mp same) (not_not.mpr rfl)
  | negate _ _ ih =>
      refine ⟨ih.nodup, fun name => ?_⟩
      rw [Pi.neg_apply, neg_ne_zero]
      exact ih.mem_iff name
  | add _ _ disjoint ihLeft ihRight =>
      refine ⟨ihLeft.nodup_append ihRight disjoint, fun name => ?_⟩
      rw [Expr.occurrences, List.mem_append, ihLeft.mem_iff, ihRight.mem_iff, Pi.add_apply]
      have apart := disjoint (some name)
      omega
  | subtract _ _ disjoint ihLeft ihRight =>
      refine ⟨ihLeft.nodup_append ihRight disjoint, fun name => ?_⟩
      rw [Expr.occurrences, List.mem_append, ihLeft.mem_iff, ihRight.mem_iff, Pi.sub_apply]
      have apart := disjoint (some name)
      omega
  | scaleLeft _ nonzero _ _ ih =>
      refine ⟨ih.nodup, fun name => ?_⟩
      rw [Pi.smul_apply, smul_ne_zero_iff_right nonzero]
      exact ih.mem_iff name
  | scaleRight _ nonzero _ _ ih =>
      rw [Expr.occurrences, Expr.occurrences, List.append_nil]
      refine ⟨ih.nodup, fun name => ?_⟩
      rw [Pi.smul_apply, smul_ne_zero_iff_right nonzero]
      exact ih.mem_iff name

section Flattening

variable (settings : Settings)

/-- A tidy expression that is no constant is a multiple of a variable, a sum or a
difference. -/
theorem exists_ofExpr (tidy : Tidy expression form) (varies : expression.kind ≠ .constant)
    (exact : form.Exact) :
    ∃ coefficient number base baseForm,
      Term.ofExpr (Doubles.arithmetic settings) expression = ⟨coefficient, some base⟩ ∧
        IsWhole coefficient number ∧ Tidy base baseForm ∧
        ((∃ name, base = .var name) ∨ Term.isSum base = true) ∧ form = number • baseForm := by
  induction tidy with
  | const whole nonzero => exact absurd rfl varies
  | var name =>
      exact ⟨_, 1, _, _, rfl, isWhole_one, .var name, .inl ⟨name, rfl⟩, (one_smul ..).symm⟩
  | add isLeft isRight disjoint _ _ =>
      exact ⟨_, 1, _, _, rfl, isWhole_one, .add isLeft isRight disjoint, .inr rfl,
        (one_smul ..).symm⟩
  | subtract isLeft isRight disjoint _ _ =>
      exact ⟨_, 1, _, _, rfl, isWhole_one, .subtract isLeft isRight disjoint, .inr rfl,
        (one_smul ..).symm⟩
  | negate _ operandVaries ih =>
      obtain ⟨coefficient, number, base, baseForm, read, whole, tidy, shape, rfl⟩ :=
        ih operandVaries exact.of_neg
      refine ⟨-coefficient, -number, base, baseForm, ?_, whole.neg, tidy, shape, (neg_smul ..).symm⟩
      rw [Term.ofExpr, read]
      rfl
  | @scaleLeft value factor right form factorWhole nonzero _ rightVaries ih =>
      obtain ⟨coefficient, number, base, baseForm, read, whole, tidy, shape, rfl⟩ :=
        ih rightVaries (exact.of_smul nonzero)
      rw [smul_smul] at exact ⊢
      refine ⟨value * coefficient, factor * number, base, baseForm, ?_,
        factorWhole.mul whole (exact.factor tidy.form_ne_zero), tidy, shape, rfl⟩
      rw [Term.ofExpr, read]
      rfl
  | @scaleRight value factor left form factorWhole nonzero _ leftVaries ih =>
      obtain ⟨coefficient, number, base, baseForm, read, whole, tidy, shape, rfl⟩ :=
        ih leftVaries (exact.of_smul nonzero)
      rw [smul_smul] at exact ⊢
      refine ⟨value * coefficient, factor * number, base, baseForm, ?_,
        factorWhole.mul whole (exact.factor tidy.form_ne_zero), tidy, shape, rfl⟩
      rw [Term.ofExpr, read]
      · rfl
      · rintro other rfl
        exact leftVaries rfl

/-- An expression with a base is no constant, and a multiple of it is a multiple of the
base. -/
theorem exists_scaled {scale : Float} {number : ℤ} {base : Expr Float}
    (tidy : Tidy expression form) (isScale : IsCoefficient scale number)
    (exact : Form.Exact (number • form))
    (found : (Term.ofExpr (Doubles.arithmetic settings) expression).base? = some base) :
    ∃ product baseForm,
      IsCoefficient (scale * (Term.ofExpr (Doubles.arithmetic settings) expression).coefficient)
        product ∧
      Tidy base baseForm ∧ ((∃ name, base = .var name) ∨ Term.isSum base = true) ∧
      number • form = product • baseForm := by
  have varies : expression.kind ≠ .constant := by
    intro constant
    obtain ⟨value, rfl⟩ := Expr.exists_const_of_kind constant
    cases found
  obtain ⟨coefficient, factor, other, baseForm, read, whole, baseTidy, shape, rfl⟩ :=
    tidy.exists_ofExpr settings varies (exact.of_smul isScale.2)
  rw [read] at found ⊢
  cases found
  rw [smul_smul] at exact ⊢
  have isProduct := isScale.1.mul whole (exact.factor baseTidy.form_ne_zero)
  have factorNonzero : factor ≠ 0 := by
    rintro rfl
    exact tidy.form_ne_zero (zero_smul ℤ baseForm)
  exact ⟨number * factor, baseForm, ⟨isProduct, mul_ne_zero isScale.2 factorNonzero⟩, baseTidy,
    shape, rfl⟩

theorem disjoint_smul {leftForm rightForm : Form}
    (disjoint : ∀ key, leftForm key = 0 ∨ rightForm key = 0) (number factor : ℤ) :
    ∀ key, (number • leftForm) key = 0 ∨ (factor • rightForm) key = 0 := by
  intro key
  rcases disjoint key with zero | zero
  · exact .inl (by rw [Pi.smul_apply, zero, smul_zero])
  · exact .inr (by rw [Pi.smul_apply, zero, smul_zero])

/-- A tidy expression is flattened to the terms of a multiple of its form. -/
theorem lists_flatten {scale : Float} {number : ℤ} (tidy : Tidy expression form)
    (isScale : IsCoefficient scale number) (exact : Form.Exact (number • form)) :
    Term.Lists (Doubles.arithmetic settings) IsCoefficient
      (Term.flatten (Doubles.arithmetic settings) scale expression) (number • form) := by
  fun_induction Term.flatten (Doubles.arithmetic settings) scale expression
    generalizing number form with
  | case1 scale left right ihLeft ihRight =>
      cases tidy with
      | add isLeft isRight disjoint =>
          have scaledDisjoint := disjoint_smul disjoint number number
          rw [smul_add] at exact ⊢
          obtain ⟨leftExact, rightExact⟩ := exact.of_disjoint scaledDisjoint
          exact (ihLeft isLeft isScale leftExact).append (ihRight isRight isScale rightExact)
            (fun _ _ isCoefficient => isCoefficient.2) scaledDisjoint
  | case2 scale left right ihLeft ihRight =>
      cases tidy with
      | subtract isLeft isRight disjoint =>
          have scaledDisjoint := disjoint_smul disjoint number (-number)
          have opposite : IsCoefficient (-scale) (-number) :=
            ⟨isScale.1.neg, neg_ne_zero.mpr isScale.2⟩
          rw [smul_sub, sub_eq_add_neg, ← neg_smul] at exact ⊢
          obtain ⟨leftExact, rightExact⟩ := exact.of_disjoint scaledDisjoint
          exact (ihLeft isLeft isScale leftExact).append (ihRight isRight opposite rightExact)
            (fun _ _ isCoefficient => isCoefficient.2) scaledDisjoint
  | case3 scale operand ih =>
      cases tidy with
      | negate operandTidy _ =>
          rw [smul_neg, ← neg_smul] at exact ⊢
          exact ih operandTidy ⟨isScale.1.neg, neg_ne_zero.mpr isScale.2⟩ exact
  | case4 scale expression _ _ _ coefficient =>
      rename_i found
      by_cases constant : expression.kind = .constant
      · obtain ⟨value, factor, rfl, whole, nonzero, rfl⟩ := tidy.exists_whole constant
        rw [← Pi.single_smul', smul_eq_mul] at exact ⊢
        exact Term.lists_single rfl
          ⟨isScale.1.mul whole exact.representable_single, mul_ne_zero isScale.2 nonzero⟩
      · obtain ⟨_, _, _, _, read, _⟩ :=
          tidy.exists_ofExpr settings constant (exact.of_smul isScale.2)
        rw [read] at found
        cases found
  | case5 scale expression _ _ _ coefficient base found sum smaller =>
      rename_i ih
      obtain ⟨product, baseForm, isProduct, baseTidy, -, same⟩ :=
        tidy.exists_scaled settings isScale exact found
      rw [same] at exact ⊢
      exact ih baseTidy isProduct exact
  | case6 scale expression notSum notDifference notNegation coefficient base found =>
      rename_i plain
      obtain ⟨product, baseForm, isProduct, baseTidy, shape, same⟩ :=
        tidy.exists_scaled settings isScale exact found
      have expressionPlain := Term.isSum_eq_false notSum notDifference notNegation
      rcases shape with ⟨name, rfl⟩ | sum
      · cases baseTidy
        rw [same, ← Pi.single_smul', smul_eq_mul, mul_one]
        exact Term.lists_single rfl isProduct
      · exact absurd ⟨sum, by rw [expressionPlain]; exact Bool.false_ne_true⟩ plain

end Flattening

end Tidy

end ExprCalculus
