import ExprCalculus.Proofs.Evaluation.Overflows
import ExprCalculus.Proofs.Factoring.Breaks

/-!
# When polynomials of doubles are factored

A polynomial is always simplified.  This file says exactly which obstacles keep it from
being factored after that: an infinite exponent, a common factor that is zero or cannot be
written, splitting that breaks off, and factors whose constant part is not finite.  Where
there is none, the polynomial is factored, and it is only simplified if no step applies.
-/

namespace ExprCalculus

namespace Doubles

open Factorization

variable (settings : Settings)

section Products

def constants (factors : List (Expr Float)) : List Float :=
  factors.filterMap fun factor =>
    match factor with
    | .const value => some value
    | _ => none

/-- The constant part of a product is infinite or undefined and is written down. -/
def ScaleFails (factors : List (Expr Float)) : Prop :=
  let scale := (constants factors).foldl (· * ·) (Binary64.ofInt 1)
  scale.isFinite = false ∧ (settings.apart scale (Binary64.ofInt 1) = true ∨
    ∀ factor ∈ factors, factor.kind = .constant)

/-- Merging the constants and passing over everything else is the product of the
constants. -/
theorem foldl_constants {step : Float → Expr Float → Float}
    (merges : ∀ scale value, step scale (.const value) = scale * value)
    (skips : ∀ scale factor, factor.kind ≠ .constant → step scale factor = scale)
    (factors : List (Expr Float)) (start : Float) :
    factors.foldl step start = (constants factors).foldl (· * ·) start := by
  induction factors generalizing start with
  | nil => rfl
  | cons factor factors ih =>
      rw [List.foldl_cons, ih]
      cases factor with
      | const value => exact congrArg ((constants factors).foldl (· * ·)) (merges start value)
      | _ =>
          refine congrArg ((constants factors).foldl (· * ·)) (skips start _ ?_)
          rintro ⟨⟩

theorem not_near_of_infinite {value : Float} (infinite : value.isFinite = false) (other : Float) :
    settings.near value other = false := by
  rw [Bool.eq_false_iff, ne_eq, Binary64.near_eq_true]
  exact Binary64.not_abs_lt (Binary64.isFinite_sub infinite other) _

theorem fails_product (factors : List (Expr Float)) :
    Fails (product (factoring settings) factors) ↔ ScaleFails settings factors := by
  unfold product ScaleFails
  have isOne : (factoring settings).one = Binary64.ofInt 1 := rfl
  rw [isOne, foldl_constants]
  rotate_left
  · exact fun _ _ => rfl
  · intro scale factor other
    cases factor with
    | const => exact absurd rfl other
    | _ => rfl
  dsimp only
  generalize (constants factors).foldl (· * ·) (Binary64.ofInt 1) = scale
  have allConstant : (∀ factor ∈ factors, factor.kind = .constant) ↔
      factors.filter (fun factor => factor.kind ≠ .constant) = [] := by
    simp
  rw [allConstant]
  split
  next noOthers =>
    rw [noOthers, ← fails_snap settings]
    simp only [or_true, and_true]
    exact fails_bind_of_returns fun _ _ => not_fails_ok _
  next first rest areOthers =>
    rw [areOthers, or_iff_left (List.cons_ne_nil first rest)]
    split
    next near =>
      refine iff_of_false (not_fails_ok _) fun fails => ?_
      cases (not_near_of_infinite settings fails.1 _).symm.trans near
    next notNear =>
      split
      next isApart =>
        have apart : settings.apart scale (Binary64.ofInt 1) = true := isApart
        rw [and_iff_left apart, ← fails_snap settings]
        exact fails_bind_of_returns fun _ _ => not_fails_ok _
      next notApart => exact iff_of_false (not_fails_ok _) fun fails => notApart fails.2

end Products

section Sums

/-- A sum of monomials as a polynomial in the requested variable, or else in the only one. -/
def polynomialIn? (requested? : Option String) (monomials : List (Monomial Float)) :
    Option (String × List Float) := do
  let name ← chosenVariable? requested? monomials
  let coefficients ← Monomial.coefficientsIn? (factoring settings) name monomials
  return (name, coefficients)

/-- The factors of a sum of monomials as a polynomial in one variable. -/
def splitSum? (requested? : Option String) (monomials : List (Monomial Float)) :
    Except NumericFault (Option (List (Expr Float))) :=
  match polynomialIn? settings requested? monomials with
  | some (name, coefficients) => factors? (factoring settings) name coefficients
  | none => .ok none

/-- The product of the factors in front of a sum and those that it is split into, or the sum
itself; there is none if the sum is not split and nothing stands in front of it. -/
def assemble? (front : List (Expr Float)) (rest : List (Monomial Float)) :
    Option (List (Expr Float)) → Except NumericFault (Option (Expr Float))
  | some factors => do
      return some (← product (factoring settings) (front ++ factors))
  | none =>
      if front.isEmpty then
        .ok none
      else do
        let sum ← Monomial.sumExpr (factoring settings) rest
        return some (← product (factoring settings) (front ++ [sum]))

theorem ofMonomials?_eq (requested? : Option String) (monomials : List (Monomial Float)) :
    ofMonomials? (factoring settings) requested? monomials = (do
      let taken ← takeCommon (factoring settings) monomials
      let split ← splitSum? settings requested? taken.2
      assemble? settings taken.1 taken.2 split) := by
  unfold ofMonomials? splitSum?
  refine congrArg (takeCommon (factoring settings) monomials >>= ·) (funext fun (front, rest) => ?_)
  dsimp only
  have isPolynomial : (do
      let name ← chosenVariable? requested? rest
      let coefficients ← Monomial.coefficientsIn? (factoring settings) name rest
      return (name, coefficients)) = polynomialIn? settings requested? rest := rfl
  rw [isPolynomial]
  cases polynomialIn? settings requested? rest with
  | none => cases front <;> rfl
  | some polynomial =>
      refine congrArg (factors? (factoring settings) polynomial.1 polynomial.2 >>= ·)
        (funext fun split => ?_)
      cases split <;> cases front <;> rfl

/-- Behind some factors in front of it, a sum of monomials cannot be factored or written:
splitting it breaks off, or the factors have a constant part that is not finite.  If it is not
split, it cannot be written, or its product with the factors in front has such a part. -/
inductive RestObstructed (requested? : Option String) (front : List (Expr Float))
    (rest : List (Monomial Float)) : Prop
  | splitting {name : String} {coefficients : List Float}
      (isPolynomial : polynomialIn? settings requested? rest = some (name, coefficients))
      (breaks : SplittingBreaks settings name coefficients)
  | factors {factors : List (Expr Float)}
      (split : splitSum? settings requested? rest = .ok (some factors))
      (fails : ScaleFails settings (front ++ factors))
  | sum {monomial : Monomial Float} (divided : front ≠ [])
      (whole : splitSum? settings requested? rest = .ok none) (member : monomial ∈ rest)
      (unwritable : Unwritable monomial)
  | product {sum : Expr Float} (divided : front ≠ [])
      (whole : splitSum? settings requested? rest = .ok none)
      (isSum : Monomial.sumExpr (factoring settings) rest = .ok sum)
      (fails : ScaleFails settings (front ++ [sum]))

/-- The common factor of some monomials cannot be taken out, or what is left cannot be
factored or written. -/
def SumObstructed (requested? : Option String) (monomials : List (Monomial Float)) : Prop :=
  CommonFails settings monomials ∨ ∃ taken, takeCommon (factoring settings) monomials = .ok taken ∧
    RestObstructed settings requested? taken.1 taken.2

/-- A sum that has factors is a polynomial that a step splits. -/
theorem exists_splitting {requested? : Option String} {rest : List (Monomial Float)}
    {factors : List (Expr Float)}
    (split : splitSum? settings requested? rest = .ok (some factors)) :
    ∃ name coefficients splitting,
      polynomialIn? settings requested? rest = some (name, coefficients) ∧
        split? (factoring settings) name coefficients = .ok (some splitting) := by
  unfold splitSum? at split
  split at split
  next name coefficients isPolynomial =>
    unfold factors? at split
    obtain ⟨_ | splitting, isSplitting, factored⟩ := except_bind_eq_ok.mp split
    · cases factored
    · exact ⟨name, coefficients, splitting, isPolynomial, isSplitting⟩
  next => cases split

theorem fails_splitSum? (requested? : Option String) (rest : List (Monomial Float)) :
    Fails (splitSum? settings requested? rest) ↔
      ∃ name coefficients, polynomialIn? settings requested? rest = some (name, coefficients) ∧
        SplittingBreaks settings name coefficients := by
  unfold splitSum?
  cases polynomialIn? settings requested? rest with
  | none => simp
  | some polynomial =>
      obtain ⟨name, coefficients⟩ := polynomial
      simp [fails_factors?]

theorem fails_assemble?_some (front factors : List (Expr Float)) (rest : List (Monomial Float)) :
    Fails (assemble? settings front rest (some factors)) ↔
      ScaleFails settings (front ++ factors) :=
  (fails_bind_of_returns fun _ _ => not_fails_ok _).trans (fails_product settings _)

theorem fails_assemble?_none (front : List (Expr Float)) (rest : List (Monomial Float)) :
    Fails (assemble? settings front rest none) ↔ front ≠ [] ∧
      ((∃ monomial ∈ rest, Unwritable monomial) ∨
        ∃ sum, Monomial.sumExpr (factoring settings) rest = .ok sum ∧
          ScaleFails settings (front ++ [sum])) := by
  unfold assemble?
  dsimp only
  split
  next isEmpty =>
    exact iff_of_false (not_fails_ok _) fun fails => fails.1 (List.isEmpty_iff.mp isEmpty)
  next notEmpty =>
    rw [and_iff_right (mt List.isEmpty_iff.mpr notEmpty), fails_bind, fails_sumExpr]
    refine or_congr_right (exists_congr fun sum => and_congr_right fun _ => ?_)
    exact (fails_bind_of_returns fun _ _ => not_fails_ok _).trans (fails_product settings _)

theorem fails_ofMonomials? (requested? : Option String) {monomials : List (Monomial Float)}
    (nonempty : monomials ≠ []) :
    Fails (ofMonomials? (factoring settings) requested? monomials) ↔
      SumObstructed settings requested? monomials := by
  rw [ofMonomials?_eq, fails_bind, fails_takeCommon settings nonempty]
  refine or_congr_right (exists_congr fun (front, rest) => and_congr_right fun _ => ?_)
  dsimp only
  rw [fails_bind, fails_splitSum?]
  constructor
  · rintro (⟨name, coefficients, isPolynomial, breaks⟩ | ⟨_ | factors, split, failed⟩)
    · exact .splitting isPolynomial breaks
    · rcases (fails_assemble?_none settings front rest).mp failed with
        ⟨divided, ⟨monomial, member, unwritable⟩ | ⟨sum, isSum, fails⟩⟩
      · exact .sum divided split member unwritable
      · exact .product divided split isSum fails
    · exact .factors split ((fails_assemble?_some settings front factors rest).mp failed)
  · intro obstructed
    cases obstructed with
    | splitting isPolynomial breaks => exact .inl ⟨_, _, isPolynomial, breaks⟩
    | factors split fails =>
        exact .inr ⟨_, split, (fails_assemble?_some settings _ _ _).mpr fails⟩
    | sum divided whole member unwritable =>
        refine .inr ⟨none, whole, (fails_assemble?_none settings _ _).mpr ⟨divided, .inl ?_⟩⟩
        exact ⟨_, member, unwritable⟩
    | product divided whole isSum fails =>
        refine .inr ⟨none, whole, (fails_assemble?_none settings _ _).mpr ⟨divided, .inr ?_⟩⟩
        exact ⟨_, isSum, fails⟩

end Sums

section Expressions

/-- Something keeps the simplified form of an expression from being factored: after terms
that are monomials comes one with an infinite exponent, or all are and their sum cannot be
factored. -/
inductive Obstructed (requested? : Option String) (simplified : Expr Float) : Prop
  | exponent (reached : Reaches (IsMonomial settings) HasInfinitePower
      (Term.split (arithmetic settings) simplified))
  | sum {monomials : List (Monomial Float)}
      (areMonomials : Monomial.ofExpr? (factoring settings) simplified = .ok (some monomials))
      (several : 2 ≤ monomials.length)
      (obstructed : SumObstructed settings requested? monomials)

/-- A step of factoring applies: a common factor is taken out of several monomials, or they
are a polynomial in one variable that is split. -/
inductive StepApplies (requested? : Option String) (simplified : Expr Float) : Prop
  | common {monomials rest : List (Monomial Float)} {front : List (Expr Float)}
      (areMonomials : Monomial.ofExpr? (factoring settings) simplified = .ok (some monomials))
      (several : 2 ≤ monomials.length)
      (taken : takeCommon (factoring settings) monomials = .ok (front, rest))
      (divided : front ≠ [])
  | split {monomials rest : List (Monomial Float)} {name : String} {coefficients : List Float}
      {splitting : Splitting Float coefficients.length}
      (areMonomials : Monomial.ofExpr? (factoring settings) simplified = .ok (some monomials))
      (several : 2 ≤ monomials.length)
      (taken : takeCommon (factoring settings) monomials = .ok ([], rest))
      (isPolynomial : polynomialIn? settings requested? rest = some (name, coefficients))
      (isSplitting : split? (factoring settings) name coefficients = .ok (some splitting))

variable {settings} {requested? : Option String} {expression simplified : Expr Float}

variable (settings requested? simplified) in
/-- The factored form of a simplified expression, or the expression itself. -/
def factorSimplified : Except NumericFault (Expr Float) := do
  match ← Monomial.ofExpr? (factoring settings) simplified with
  | none => return simplified
  | some monomials =>
      if 2 ≤ monomials.length then
        let product? ← ofMonomials? (factoring settings) requested? monomials
        return product?.getD simplified
      else
        return simplified

theorem outcome_factor
    (isSimplified : (expression.simplify (arithmetic settings)).outcome = .ok simplified) :
    (expression.factor (factoring settings) requested?).outcome =
      (factorSimplified settings requested? simplified).mapError .numeric := by
  have isFirst : ((expression.simplify (factoring settings).toArithmetic).mapFault
      TransformFault.evaluation).outcome = .ok simplified :=
    mapError_eq_ok.mpr isSimplified
  unfold Expr.factor factorSimplified
  simp only [Traced.outcome_bind, isFirst, Traced.outcome_note, Traced.outcome_ofExcept,
    Except.bind]
  cases Monomial.ofExpr? (factoring settings) simplified with
  | error fault => rfl
  | ok monomials? =>
      match monomials? with
      | none | some [] | some [_] => rfl
      | some (first :: second :: rest) =>
          have several : 2 ≤ (first :: second :: rest).length := by simp
          simp only [except_ok_bind, if_pos several, Except.mapError]
          cases ofMonomials? (factoring settings) requested? (first :: second :: rest) with
          | error fault => rfl
          | ok product? => cases product? <;> rfl

theorem fails_factorSimplified : Fails (factorSimplified settings requested? simplified) ↔
    Obstructed settings requested? simplified := by
  unfold factorSimplified
  have reading : Fails (Monomial.ofExpr? (factoring settings) simplified) ↔
      Reaches (IsMonomial settings) HasInfinitePower
        (Term.split (arithmetic settings) simplified) :=
    fails_ofTerms? settings _
  rw [fails_bind, reading]
  constructor
  · rintro (reached | ⟨_ | monomials, areMonomials, failed⟩)
    · exact .exponent reached
    · exact absurd failed (not_fails_ok _)
    dsimp only at failed
    split at failed
    next several =>
      have nonempty : monomials ≠ [] := by
        rintro rfl
        cases several
      have failed := (fails_bind_of_returns fun _ _ => not_fails_ok _).mp failed
      exact .sum areMonomials several
        ((fails_ofMonomials? settings requested? nonempty).mp failed)
    next => exact absurd failed (not_fails_ok _)
  · rintro (reached | ⟨areMonomials, several, obstructed⟩)
    · exact .inl reached
    · refine .inr ⟨_, areMonomials, ?_⟩
      dsimp only
      rw [if_pos several]
      refine (fails_bind_of_returns fun _ _ => not_fails_ok _).mpr
        ((fails_ofMonomials? settings requested? ?_).mpr obstructed)
      rintro rfl
      cases several

theorem factorSimplified_of_no_step {result : Expr Float}
    (factored : factorSimplified settings requested? simplified = .ok result)
    (noStep : ¬ StepApplies settings requested? simplified) : result = simplified := by
  obtain ⟨_ | monomials, areMonomials, remaining⟩ := except_bind_eq_ok.mp factored
  · exact (Except.ok.inj remaining).symm
  dsimp only at remaining
  split at remaining
  next several =>
    obtain ⟨product?, isProduct, same⟩ := except_bind_eq_ok.mp remaining
    rw [ofMonomials?_eq] at isProduct
    obtain ⟨⟨front, rest⟩, taken, isProduct⟩ := except_bind_eq_ok.mp isProduct
    obtain ⟨split, isSplit, isProduct⟩ := except_bind_eq_ok.mp isProduct
    have nothingTaken : front = [] := by
      by_contra divided
      exact noStep (.common areMonomials several taken divided)
    subst nothingTaken
    cases split with
    | none =>
        obtain rfl : none = product? := Except.ok.inj isProduct
        exact (Except.ok.inj same).symm
    | some factors =>
        obtain ⟨name, coefficients, splitting, isPolynomial, isSplitting⟩ :=
          exists_splitting settings isSplit
        exact absurd (.split areMonomials several taken isPolynomial isSplitting) noStep
  next => exact (Except.ok.inj remaining).symm

/-- Expressions built from finite constants and variables by sums, differences, products,
negation and powers with positive whole exponents. -/
inductive IsPolynomial : Expr Float → Prop
  | const {value : Float} (finite : value.isFinite = true) : IsPolynomial (.const value)
  | var (name : String) : IsPolynomial (.var name)
  | neg {operand : Expr Float} (inner : IsPolynomial operand) : IsPolynomial (-operand)
  | add {left right : Expr Float} (first : IsPolynomial left) (second : IsPolynomial right) :
      IsPolynomial (left + right)
  | sub {left right : Expr Float} (first : IsPolynomial left) (second : IsPolynomial right) :
      IsPolynomial (left - right)
  | mul {left right : Expr Float} (first : IsPolynomial left) (second : IsPolynomial right) :
      IsPolynomial (left * right)
  | pow {base : Expr Float} {value : Float} {exponent : ℕ} (inner : IsPolynomial base)
      (whole : Binary64.toRat? value = some (exponent : ℚ)) (positive : 0 < exponent) :
      IsPolynomial (base ^ (.const value : Expr Float))

theorem IsPolynomial.not_overflows (polynomial : IsPolynomial expression)
    (HasValue : Expr Float → Float → Prop) : ¬ expression.Overflows settings HasValue := by
  have notBinary {operator : BinaryOperator} {left right : Expr Float}
      (notLeft : ¬ left.Overflows settings HasValue)
      (notRight : ¬ right.Overflows settings HasValue) :
      ¬ (Expr.binary operator left right).Overflows settings HasValue := by
    intro found
    rcases Expr.somewhere_binary.mp found with overflowing | inLeft | inRight
    · cases overflowing
    · exact notLeft inLeft
    · exact notRight inRight
  have notConst (value : Float) : ¬ (Expr.const value).Overflows settings HasValue := by
    intro found
    cases Expr.somewhere_const.mp found
  induction polynomial with
  | const finite => exact notConst _
  | var name =>
      intro found
      cases Expr.somewhere_var.mp found
  | neg _ ih =>
      intro found
      rcases Expr.somewhere_unary.mp found with overflowing | inside
      · cases overflowing
      · exact ih inside
  | add _ _ firstIH secondIH => exact notBinary firstIH secondIH
  | sub _ _ firstIH secondIH => exact notBinary firstIH secondIH
  | mul _ _ firstIH secondIH => exact notBinary firstIH secondIH
  | pow _ _ _ ih => exact notBinary ih (notConst _)

/-- A polynomial is always simplified. -/
theorem IsPolynomial.exists_simplified (polynomial : IsPolynomial expression)
    (settings : Settings) :
    ∃ simplified, (expression.simplify (arithmetic settings)).outcome = .ok simplified := by
  cases outcome : (expression.simplify (arithmetic settings)).outcome with
  | ok simplified => exact ⟨simplified, rfl⟩
  | error fault => exact absurd (Expr.overflows_of_simplify outcome).2 (polynomial.not_overflows _)

end Expressions

/-- A polynomial is simplified, and then it is factored unless something stands in the way of
it: exactly in that case factoring fails, with a fault of the numbers.  If no step applies,
the simplified polynomial is the result. -/
theorem polynomial_factored_unless_obstructed (settings : Settings) (requested? : Option String)
    {expression : Expr Float} (polynomial : IsPolynomial expression) :
    ∃ simplified, (expression.simplify (arithmetic settings)).outcome = .ok simplified ∧
      (Obstructed settings requested? simplified →
        ∃ fault, (expression.factor (factoring settings) requested?).outcome =
          .error (.numeric fault)) ∧
      (¬ Obstructed settings requested? simplified →
        ∃ result, (expression.factor (factoring settings) requested?).outcome = .ok result ∧
          (¬ StepApplies settings requested? simplified → result = simplified)) := by
  obtain ⟨simplified, isSimplified⟩ := polynomial.exists_simplified settings
  refine ⟨simplified, isSimplified, ?_⟩
  rw [← fails_factorSimplified, outcome_factor isSimplified]
  refine ⟨?_, fun returns => ?_⟩
  · rintro ⟨fault, failed⟩
    exact ⟨fault, mapError_eq_error.mpr ⟨fault, failed, rfl⟩⟩
  · obtain ⟨result, factored⟩ := not_fails.mp returns
    exact ⟨result, mapError_eq_ok.mpr factored, factorSimplified_of_no_step factored⟩

section Instance

/-- Two terms with coefficients that both count as zero. -/
def tinySum : Expr Float :=
  .const 5e-10 * .var "x" + .const 5e-10 * .var "y"

theorem isPolynomial_tinySum : IsPolynomial tinySum :=
  .add (.mul (.const (by decide +kernel)) (.var "x")) (.mul (.const (by decide +kernel)) (.var "y"))

/-- The coefficients of the sum count as zero, so its terms would be divided by zero. -/
theorem tinySum_not_factored :
    IsPolynomial tinySum ∧
      ∃ fault, (tinySum.factor (factoring Settings.standard) none).outcome =
        .error (.numeric fault) := by
  refine ⟨isPolynomial_tinySum, ?_⟩
  obtain ⟨simplified, isSimplified, fails, -⟩ :=
    polynomial_factored_unless_obstructed Settings.standard none isPolynomial_tinySum
  have tiny : (tinySum.simplify (arithmetic Settings.standard)).outcome.toOption.any
      (fun simplified => (Monomial.ofExpr? (factoring Settings.standard) simplified).toOption.any
        fun monomials? => monomials?.any fun monomials => decide (2 ≤ monomials.length) &&
          monomials.all fun monomial => decide (monomial.coefficient.abs < 1e-9)) = true := by
    decide +kernel
  rw [isSimplified] at tiny
  change ((Monomial.ofExpr? (factoring Settings.standard) simplified).toOption.any _) = true at tiny
  cases read : Monomial.ofExpr? (factoring Settings.standard) simplified with
  | error fault =>
      rw [read] at tiny
      cases tiny
  | ok monomials? =>
      rw [read] at tiny
      cases monomials? with
      | none => cases tiny
      | some monomials =>
          obtain ⟨several, vanish⟩ := (Bool.and_eq_true _ _).mp tiny
          refine fails (.sum read (of_decide_eq_true several) (.inl (.content ?_ (.inl ?_))))
          · exact fun monomial member =>
              of_decide_eq_true (List.all_eq_true.mp vanish monomial member)
          · decide +kernel

end Instance

end Doubles

end ExprCalculus
