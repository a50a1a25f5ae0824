import ExprCalculus.Proofs.Doubles.Tolerance
import ExprCalculus.Proofs.Printing.Rendering

/-!
# Texts of constants

A constant is written as a number, as one of the two names it is near, or, if no
literal denotes it, as a sign or a quotient.  In each case the text renders the constant
as it is spelled, up to the tolerance.
-/

namespace ExprCalculus

namespace Expr

/-- A constant as the grammar can spell it: a sign in front of a negative number, and
quotients by zero for infinite and undefined ones. -/
def spelled (value : Float) : Expr Float :=
  if value.isNaN then
    .binary .divide (.const 0.0) (.const 0.0)
  else if value.isInf then
    (if 0.0 < value then .binary .divide (.const 1.0) (.const 0.0)
      else .binary .divide (.unary .negate (.const 1.0)) (.const 0.0))
  else if value == 0.0 && Binary64.signBit value then
    .unary .negate (.const 0.0)
  else if value < 0.0 then
    .unary .negate (.const (-value))
  else
    .const value

end Expr

namespace Printing

open Token Grammar Binary64 Float.Model Float.Model.UnpackedFloat

theorem unpacked_pi : unpacked piConstant = .finite .positive 7074237752028440 (-51) (by decide) :=
  rfl

theorem unpacked_euler :
    unpacked eulerConstant = .finite .positive 6121026514868073 (-51) (by decide) :=
  rfl

theorem renders_zero : Renders .primary "0" (.const 0.0) :=
  renders_numeral ⟨⟨0, 0⟩, Decimal.isLiteral_toString 0, rfl⟩

theorem renders_one : Renders .primary "1" (.const 1.0) :=
  renders_numeral ⟨⟨1, 0⟩, Decimal.isLiteral_toString 1, rfl⟩

theorem renders_pi : Renders .primary "pi" (.const piConstant) :=
  renders_constantName rfl (fun _ => rfl) rfl

theorem renders_euler : Renders .primary "e" (.const eulerConstant) :=
  renders_constantName rfl (fun _ => rfl) rfl

/-- A quotient by zero in parentheses. -/
theorem renders_quotient {text : String} {dividend : Expr Float}
    (renders : Renders (phraseOf .unary) text dividend) :
    Renders .primary ("(" ++ (text ++ "/" ++ "0") ++ ")")
      (.binary .divide dividend (.const 0.0)) := by
  have left : Renders (phraseOf .multiplicative) text dividend := renders.looser (by decide)
  have right : Renders (phraseOf .unary) "0" (.const 0.0) := .of_primary .unary renders_zero
  have quotient : Renders (phraseOf .multiplicative) (text ++ "/" ++ "0")
      (.binary .divide dividend (.const 0.0)) := .multiple rfl rfl left right
  have inside := quotient.additive
  exact inside.enclosed

/-- A negated operand in parentheses. -/
theorem renders_negated {text : String} {operand : Expr Float}
    (renders : Renders (phraseOf .unary) text operand) :
    Renders .primary ("(" ++ ("-" ++ text) ++ ")") (.unary .negate operand) := by
  have negation : Renders (phraseOf .unary) ("-" ++ text) (.unary .negate operand) :=
    Renders.negation renders
  have inside := negation.additive
  exact inside.enclosed

section Finite

variable {value : Float} {coefficient : ℕ} {exponent : ℤ} {positive : 0 < coefficient}

/-- A negative double is not near a constant that is at least one. -/
theorem not_near_of_negative {constant : Float} {constantCoefficient : ℕ} {constantExponent : ℤ}
    {constantPositive : 0 < constantCoefficient}
    (parts : unpacked value = .finite .negative coefficient exponent positive)
    (constantParts : unpacked constant =
      .finite .positive constantCoefficient constantExponent constantPositive)
    (large : 1 ≤ totalExponent constantCoefficient constantExponent) :
    Settings.standard.near value constant = false := by
  have atMostOne : Settings.standard.epsilon ≤ 1.0 := by decide
  rw [Settings.near_comm]
  refine not_near_of_one_le atMostOne fun _ => ?_
  change _ ≤ rank (packed ((unpacked constant).sub Format.binary64 (unpacked value)))
  rw [parts, constantParts]
  exact (one_le_rank_sub_opposite (.inl large)).2

theorem isNaN_of_finite {sign : Sign}
    (parts : unpacked value = .finite sign coefficient exponent positive) : value.isNaN = false := by
  rw [isNaN_eq, parts]
  rfl

theorem isInf_of_finite {sign : Sign}
    (parts : unpacked value = .finite sign coefficient exponent positive) : value.isInf = false := by
  change (unpacked value).isInf = false
  rw [parts]
  rfl

theorem not_zero_of_finite {sign : Sign}
    (parts : unpacked value = .finite sign coefficient exponent positive) :
    (value == 0.0) = false := by
  have zeroRank : rank 0.0 = 0 := rfl
  have canonical := isCanonical_unpacked value
  rw [Bool.eq_false_iff, Ne, beq_iff, zeroRank, rank, parts]
  rw [parts] at canonical
  rintro ⟨-, -, same⟩
  cases sign with
  | positive => exact (rank_finite_positive canonical).1.ne' same
  | negative => exact (rank_finite_negative canonical).2.ne same

theorem constantText_positive
    (parts : unpacked value = .finite .positive coefficient exponent positive) :
    Expr.constantText Settings.standard value =
      if Settings.standard.near value piConstant then "pi"
      else if Settings.standard.near value eulerConstant then "e"
      else Expr.numeral value := by
  rw [Expr.constantText_eq, isNaN_of_finite parts, isInf_of_finite parts, not_zero_of_finite parts,
    Bool.false_and, if_neg Bool.false_ne_true, if_neg Bool.false_ne_true, if_neg Bool.false_ne_true]

theorem constantText_negative
    (parts : unpacked value = .finite .negative coefficient exponent positive) :
    Expr.constantText Settings.standard value = "-" ++ Expr.numeral (-value) := by
  have notPi := not_near_of_negative parts unpacked_pi (by decide)
  have notEuler := not_near_of_negative parts unpacked_euler (by decide)
  rw [Expr.constantText_eq, isNaN_of_finite parts, isInf_of_finite parts, not_zero_of_finite parts,
    Bool.false_and, if_neg Bool.false_ne_true, if_neg Bool.false_ne_true, if_neg Bool.false_ne_true,
    notPi, notEuler, if_neg Bool.false_ne_true, if_neg Bool.false_ne_true,
    Expr.numeral_negative parts]

theorem not_negative_of_finite
    (parts : unpacked value = .finite .positive coefficient exponent positive) : ¬ value < 0.0 := by
  have canonical := isCanonical_unpacked value
  have zeroRank : rank 0.0 = 0 := rfl
  rw [lt_iff, zeroRank, rank, parts]
  rw [parts] at canonical
  rintro ⟨-, -, negative⟩
  exact absurd (rank_finite_positive canonical).1 negative.le.not_gt

theorem spelled_positive (parts : unpacked value = .finite .positive coefficient exponent positive) :
    Expr.spelled value = .const value := by
  unfold Expr.spelled
  rw [isNaN_of_finite parts, isInf_of_finite parts, not_zero_of_finite parts,
    Bool.false_and, if_neg Bool.false_ne_true, if_neg Bool.false_ne_true,
    if_neg Bool.false_ne_true, if_neg (not_negative_of_finite parts)]

theorem negative_of_finite (parts : unpacked value = .finite .negative coefficient exponent positive) :
    value < 0.0 := by
  have canonical := isCanonical_unpacked value
  have zeroRank : rank 0.0 = 0 := rfl
  rw [lt_iff, zeroRank, rank, parts]
  rw [parts] at canonical
  exact ⟨isNaN_of_finite parts, rfl, (rank_finite_negative canonical).2⟩

theorem spelled_negative (parts : unpacked value = .finite .negative coefficient exponent positive) :
    Expr.spelled value = .unary .negate (.const (-value)) := by
  unfold Expr.spelled
  rw [isNaN_of_finite parts, isInf_of_finite parts, not_zero_of_finite parts,
    Bool.false_and, if_neg Bool.false_ne_true, if_neg Bool.false_ne_true,
    if_neg Bool.false_ne_true, if_pos (negative_of_finite parts)]

end Finite

/-- What the text of a constant renders: the constant as it is spelled, up to the
tolerance. -/
def RendersConstant (value : Float) : Prop :=
  ∃ result,
    Renders (phraseOf (Expr.const value).precedence)
      (Expr.constantText Settings.standard value) result ∧
    result.sameBy Settings.standard.same (Expr.spelled value) = true

theorem rendersConstant_of_primary {value : Float} {text : String} {result : Expr Float}
    (isText : Expr.constantText Settings.standard value = text)
    (isAtom : (Expr.const value).precedence = .atom) (renders : Renders .primary text result)
    (same : result.sameBy Settings.standard.same (Expr.spelled value) = true) :
    RendersConstant value := by
  refine ⟨result, ?_, same⟩
  rw [isText, isAtom]
  exact renders

theorem sameBy_const {first second : Float} (same : Settings.standard.same first second = true) :
    (Expr.const first).sameBy Settings.standard.same (.const second) = true := by
  rw [Expr.sameBy]
  exact same

section Finite

variable {value : Float} {coefficient : ℕ} {exponent : ℤ} {positive : 0 < coefficient}

theorem rendersConstant_positive
    (parts : unpacked value = .finite .positive coefficient exponent positive) :
    RendersConstant value := by
  have isText := constantText_positive parts
  have isAtom : (Expr.const value).precedence = .atom := by
    rw [Expr.precedence, decide_eq_false (not_negative_of_finite parts), Bool.and_false]
    rfl
  have isSpelled := spelled_positive parts
  split at isText
  next near =>
    refine rendersConstant_of_primary isText isAtom renders_pi ?_
    rw [isSpelled]
    exact sameBy_const (Settings.same_of_near _ near)
  split at isText
  next near =>
    refine rendersConstant_of_primary isText isAtom renders_euler ?_
    rw [isSpelled]
    exact sameBy_const (Settings.same_of_near _ near)
  next =>
    refine rendersConstant_of_primary isText isAtom (renders_numeral (Expr.numeral_readsAs parts)) ?_
    rw [isSpelled]
    exact sameBy_const (Settings.same_self _ value)

theorem rendersConstant_negative
    (parts : unpacked value = .finite .negative coefficient exponent positive) :
    RendersConstant value := by
  have opposite : unpacked (-value) = .finite .positive coefficient exponent positive := by
    rw [unpacked_neg, parts]
    rfl
  have finite : value.isFinite = true := by
    change (unpacked value).isFinite = true
    rw [parts]
    rfl
  have isUnary : (Expr.const value).precedence = .unary := by
    rw [Expr.precedence, finite, decide_eq_true (negative_of_finite parts)]
    rfl
  have magnitude := renders_numeral (Expr.numeral_readsAs opposite)
  refine ⟨.unary .negate (.const (-value)), ?_, ?_⟩
  · rw [constantText_negative parts, isUnary]
    exact .negation (.of_primary .unary magnitude)
  · rw [spelled_negative parts, Expr.sameBy, decide_eq_true rfl, Bool.true_and]
    exact sameBy_const (Settings.same_self _ _)

end Finite

theorem renders_constant (value : Float) : RendersConstant value := by
  have isValue := packed_unpacked value
  have one : Renders (phraseOf .unary) "1" (.const 1.0) := .of_primary .unary renders_one
  have zero : Renders (phraseOf .unary) "0" (.const 0.0) := .of_primary .unary renders_zero
  have minusOne : Renders (phraseOf .unary) "-1" (.unary .negate (.const 1.0)) := .negation one
  cases parts : unpacked value with
  | notANumber =>
      rw [parts] at isValue
      subst isValue
      exact rendersConstant_of_primary (by decide) (by decide)
        (renders_quotient zero) (by decide)
  | infinity sign =>
      rw [parts] at isValue
      subst isValue
      cases sign with
      | positive =>
          exact rendersConstant_of_primary (by decide) (by decide)
            (renders_quotient one) (by decide)
      | negative =>
          exact rendersConstant_of_primary (by decide) (by decide)
            (renders_quotient minusOne) (by decide)
  | zero sign =>
      rw [parts] at isValue
      subst isValue
      cases sign with
      | positive =>
          exact rendersConstant_of_primary (by decide +kernel) (by decide +kernel) renders_zero
            (by decide)
      | negative =>
          exact rendersConstant_of_primary (by decide) (by decide)
            (renders_negated zero) (by decide)
  | finite sign coefficient exponent positive =>
      cases sign with
      | negative => exact rendersConstant_negative parts
      | positive => exact rendersConstant_positive parts

end Printing

end ExprCalculus
