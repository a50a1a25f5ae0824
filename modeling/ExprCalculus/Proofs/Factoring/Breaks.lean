import ExprCalculus.Proofs.Factoring.Failures

/-!
# Where splitting a polynomial of doubles breaks off

Solving a quadratic equation breaks off where twice the leading coefficient is zero or a
root is not finite, splitting a difference of squares where an outer coefficient is not
finite, and the search for a root where a power of a candidate overflows.  Splitting breaks
off in any of these steps, for the polynomial or for one that it is split into.
-/

namespace ExprCalculus

namespace Doubles

open Factorization

variable (settings : Settings)

section Quadratic

variable {c b a : Float}

def discriminant (c b a : Float) : Float :=
  b * b - Binary64.ofInt 4 * a * c

/-- A numerator cannot be divided by twice the leading coefficient with a finite result. -/
def RootFails (a numerator : Float) : Prop :=
  (Binary64.ofInt 2 * a == 0.0) = true ∨
    (numerator / (Binary64.ofInt 2 * a)).isFinite = false

/-- Solving `a * x ^ 2 + b * x + c = 0`, where the discriminant is not clearly negative,
breaks off at the double root, at the square root of the discriminant or at one of the two
roots. -/
inductive QuadraticBreaks (c b a : Float) : Prop
  | double (near : settings.near (discriminant c b a) (Binary64.ofInt 0) = true)
      (notNegative : ¬ discriminant c b a < -settings.epsilon) (fails : RootFails a (-b))
  | discriminant (far : settings.near (discriminant c b a) (Binary64.ofInt 0) = false)
      (notNegative : ¬ discriminant c b a < -settings.epsilon)
      (negative : discriminant c b a < 0.0)
  | upper (far : settings.near (discriminant c b a) (Binary64.ofInt 0) = false)
      (notNegative : ¬ discriminant c b a < -settings.epsilon)
      (fails : RootFails a (-b + (discriminant c b a).sqrt))
  | lower (far : settings.near (discriminant c b a) (Binary64.ofInt 0) = false)
      (notNegative : ¬ discriminant c b a < -settings.epsilon)
      (fails : RootFails a (-b - (discriminant c b a).sqrt))

theorem quadraticBreaks_iff_of_near
    (near : settings.near (discriminant c b a) (Binary64.ofInt 0) = true)
    (notNegative : ¬ discriminant c b a < -settings.epsilon) :
    QuadraticBreaks settings c b a ↔ RootFails a (-b) := by
  constructor
  · rintro (⟨-, -, fails⟩ | ⟨far, -, -⟩ | ⟨far, -, -⟩ | ⟨far, -, -⟩)
    · exact fails
    all_goals cases near.symm.trans far
  · exact .double near notNegative

theorem quadraticBreaks_iff_of_far
    (far : settings.near (discriminant c b a) (Binary64.ofInt 0) = false)
    (notNegative : ¬ discriminant c b a < -settings.epsilon) :
    QuadraticBreaks settings c b a ↔ discriminant c b a < 0.0 ∨
      RootFails a (-b + (discriminant c b a).sqrt) ∨
        RootFails a (-b - (discriminant c b a).sqrt) := by
  constructor
  · rintro (⟨near, -, -⟩ | ⟨-, -, negative⟩ | ⟨-, -, fails⟩ | ⟨-, -, fails⟩)
    · cases near.symm.trans far
    · exact .inl negative
    · exact .inr (.inl fails)
    · exact .inr (.inr fails)
  · rintro (negative | fails | fails)
    · exact .discriminant far notNegative negative
    · exact .upper far notNegative fails
    · exact .lower far notNegative fails

theorem fails_fractionAt (a numerator : Float) :
    Fails (do
      let quotient ← (factoring settings).quotient numerator
        ((factoring settings).mul ((factoring settings).ofInt 2) a)
      (factoring settings).fraction? quotient) ↔ RootFails a numerator := by
  have divided : Fails ((factoring settings).quotient numerator
      ((factoring settings).mul ((factoring settings).ofInt 2) a)) ↔
        (Binary64.ofInt 2 * a == 0.0) = true := fails_quotient settings
  rw [fails_bind, divided]
  unfold RootFails
  by_cases zero : (Binary64.ofInt 2 * a == 0.0) = true
  · simp [zero]
  · have isQuotient : (factoring settings).quotient numerator
        ((factoring settings).mul ((factoring settings).ofInt 2) a) =
          .ok (numerator / (Binary64.ofInt 2 * a)) := if_neg zero
    rw [isQuotient]
    refine or_congr_right ⟨?_, ?_⟩
    · rintro ⟨_, ⟨⟩, failed⟩
      exact fails_fraction?.mp failed
    · exact fun infinite => ⟨_, rfl, fails_fraction?.mpr infinite⟩

theorem root_eq_ok {value distance : Float}
    (isRoot : (factoring settings).root value = .ok distance) : distance = value.sqrt := by
  unfold factoring at isRoot
  dsimp only at isRoot
  split at isRoot
  · cases isRoot
  · exact (Except.ok.inj isRoot).symm

/-- The product of the denominators of the roots is no divisor that is zero. -/
theorem not_fails_scale (a : Float) {denominator : ℕ} (positive : 0 < denominator) :
    ¬ Fails ((factoring settings).quotient a ((factoring settings).ofInt denominator)) := by
  rw [fails_quotient, Bool.not_eq_true]
  exact Binary64.ofInt_ne_zero positive

theorem fails_quadratic? (name : String) (c b a : Float) :
    Fails (quadratic? (factoring settings) name c b a) ↔ QuadraticBreaks settings c b a := by
  unfold quadratic?
  dsimp only
  split
  next clearlyNegative =>
    refine iff_of_false (not_fails_ok _) ?_
    have below : discriminant c b a < -settings.epsilon := of_decide_eq_true clearlyNegative
    rintro (⟨-, notNegative, -⟩ | ⟨-, notNegative, -⟩ | ⟨-, notNegative, -⟩ | ⟨-, notNegative, -⟩)
    all_goals exact notNegative below
  next notClearly =>
    have notNegative : ¬ discriminant c b a < -settings.epsilon :=
      fun below => notClearly (decide_eq_true below)
    split
    next isNear =>
      have near : settings.near (discriminant c b a) (Binary64.ofInt 0) = true := isNear
      rw [quadraticBreaks_iff_of_near settings near notNegative]
      refine (fails_bind_of_returns ?_).trans (fails_fractionAt settings a (-b))
      rintro (_ | root) -
      · exact not_fails_ok _
      · refine mt (fails_bind_of_returns fun _ _ => not_fails_ok _).mp ?_
        exact not_fails_scale settings a (Nat.mul_pos root.den_pos root.den_pos)
    next notNear =>
      have far : settings.near (discriminant c b a) (Binary64.ofInt 0) = false :=
        Bool.eq_false_iff.mpr notNear
      rw [quadraticBreaks_iff_of_far settings far notNegative, ← fails_root settings]
      refine fails_bind_iff_or fun distance isRoot => ?_
      rw [root_eq_ok settings isRoot, ← fails_fractionAt settings, ← fails_fractionAt settings]
      refine fails_bind_iff_or fun upper? _ => fails_bind_of_returns fun lower? _ => ?_
      split
      next upper lower =>
        refine mt (fails_bind_of_returns fun _ _ => not_fails_ok _).mp ?_
        exact not_fails_scale settings a (Nat.mul_pos (Rat.den_pos _) (Rat.den_pos _))
      next => exact not_fails_ok _

end Quadratic

section Squares

/-- The coefficients of a polynomial `a * x ^ (2 * k) + c` with opposite signs of `a` and
`c`. -/
structure IsDifference (coefficients : List Float) (constant leading : Float) : Prop where
  odd : coefficients.length % 2 = 1
  isConstant : coefficients.head? = some constant
  isLeading : coefficients.getLast? = some leading
  inner : ∀ coefficient ∈ coefficients.tail.dropLast,
    settings.apart coefficient (Binary64.ofInt 0) = false
  opposite : ¬ (0.0 : Float) ≤ leading * constant

/-- Splitting a difference of squares breaks off at an outer coefficient that is infinite or
undefined; the constant one is only looked at if the leading one counts as a square. -/
inductive SquaresBreak (coefficients : List Float) : Prop
  | leading {constant leading : Float}
      (difference : IsDifference settings coefficients constant leading)
      (infinite : leading.isFinite = false)
  | constant {constant leading : Float} {root : ℤ}
      (difference : IsDifference settings coefficients constant leading)
      (square : wholeRoot? leading = .ok (some root)) (infinite : constant.isFinite = false)

variable {coefficients : List Float} {constant leading : Float}

theorem IsDifference.unique {otherConstant otherLeading : Float}
    (difference : IsDifference settings coefficients constant leading)
    (other : IsDifference settings coefficients otherConstant otherLeading) :
    otherConstant = constant ∧ otherLeading = leading :=
  ⟨Option.some.inj (other.isConstant.symm.trans difference.isConstant),
    Option.some.inj (other.isLeading.symm.trans difference.isLeading)⟩

theorem squaresBreak_iff (difference : IsDifference settings coefficients constant leading) :
    SquaresBreak settings coefficients ↔ leading.isFinite = false ∨
      (∃ root, wholeRoot? leading = .ok (some root)) ∧ constant.isFinite = false := by
  constructor
  · rintro (⟨other, infinite⟩ | ⟨other, square, infinite⟩)
    · obtain ⟨rfl, rfl⟩ := difference.unique settings other
      exact .inl infinite
    · obtain ⟨rfl, rfl⟩ := difference.unique settings other
      exact .inr ⟨⟨_, square⟩, infinite⟩
  · rintro (infinite | ⟨⟨root, square⟩, infinite⟩)
    · exact .leading difference infinite
    · exact .constant difference square infinite

theorem not_squaresBreak
    (noDifference : ∀ constant leading, ¬ IsDifference settings coefficients constant leading) :
    ¬ SquaresBreak settings coefficients := by
  rintro (⟨difference, -⟩ | ⟨difference, -, -⟩)
  all_goals exact noDifference _ _ difference

/-- The test that rules out polynomials other than differences of two powers. -/
theorem isOther_iff (odd : coefficients.length % 2 = 1)
    (isConstant : coefficients.head? = some constant)
    (isLeading : coefficients.getLast? = some leading) :
    (coefficients.tail.dropLast.any ((factoring settings).apart · (factoring settings).zero) ||
      !(factoring settings).opposite leading constant) = true ↔
        ¬ IsDifference settings coefficients constant leading := by
  have isOpposite : (factoring settings).opposite leading constant =
      !decide ((0.0 : Float) ≤ leading * constant) := rfl
  rw [isOpposite, Bool.not_not, Bool.or_eq_true, List.any_eq_true, decide_eq_true_iff]
  constructor
  · rintro (⟨coefficient, member, apart⟩ | sameSign) difference
    · cases apart.symm.trans (difference.inner coefficient member)
    · exact difference.opposite sameSign
  · intro noDifference
    by_contra neither
    obtain ⟨noneApart, opposite⟩ := not_or.mp neither
    refine noDifference ⟨odd, isConstant, isLeading, fun coefficient member => ?_, opposite⟩
    rw [Bool.eq_false_iff]
    exact fun apart => noneApart ⟨coefficient, member, apart⟩

theorem fails_squares? (long : 3 < coefficients.length) :
    Fails (squares? (factoring settings) coefficients) ↔ SquaresBreak settings coefficients := by
  unfold squares?
  dsimp only
  split
  next leading constant isLeading isConstant =>
    split
    next even =>
      have isOther := isOther_iff settings even.1 isConstant isLeading
      split
      next other =>
        rw [isOther] at other
        refine iff_of_false (not_fails_ok _) (not_squaresBreak settings ?_)
        intro otherConstant otherLeading difference
        obtain rfl := Option.some.inj (isConstant.symm.trans difference.isConstant)
        obtain rfl := Option.some.inj (isLeading.symm.trans difference.isLeading)
        exact other difference
      next notOther =>
        rw [isOther, not_not] at notOther
        rw [squaresBreak_iff settings notOther, ← @fails_wholeRoot? leading,
          ← @fails_wholeRoot? constant]
        refine fails_bind_option (not_fails_ok _) fun root => fails_bind_of_returns ?_
        rintro (_ | constantRoot) - <;> exact not_fails_ok _
    next odd =>
      refine iff_of_false (not_fails_ok _) (not_squaresBreak settings fun _ _ difference => ?_)
      exact odd ⟨difference.odd, by omega⟩
  next noEnds =>
    refine iff_of_false (not_fails_ok _) (not_squaresBreak settings fun _ _ difference => ?_)
    exact noEnds _ _ difference.isLeading difference.isConstant

end Squares

section Search

/-- A power of a fraction overflows that occurs in a polynomial with so many coefficients. -/
def PowerOverflows (length : ℕ) (root : ℚ) : Prop :=
  ∃ number, Binary64.ofRat? root = some number ∧
    ∃ exponent < length, (Float.pow number (Binary64.ofInt exponent)).isInf = true

def IsNoRoot (coefficients : List Float) (root : ℚ) : Prop :=
  ∃ number value, Binary64.ofRat? root = some number ∧
    valueAt (factoring settings) number coefficients = .ok value ∧
    negligible coefficients value = false

theorem fails_valueAt {number : Float} (finite : number.isFinite = true)
    (coefficients : List Float) :
    Fails (valueAt (factoring settings) number coefficients) ↔
      ∃ exponent < coefficients.length,
        (Float.pow number (Binary64.ofInt exponent)).isInf = true := by
  have summed : Fails (valueAt (factoring settings) number coefficients) ↔
      ∃ entry ∈ coefficients.zipIdx, (Float.pow number (Binary64.ofInt entry.2)).isInf = true :=
    fails_foldlM fun _ entry => (fails_bind_of_returns fun _ _ => not_fails_ok _).trans
      (fails_power settings finite entry.2)
  rw [summed]
  constructor
  · rintro ⟨⟨coefficient, exponent⟩, member, infinite⟩
    obtain ⟨-, inBounds, -⟩ := List.mem_zipIdx member
    exact ⟨exponent, by omega, infinite⟩
  · rintro ⟨exponent, inBounds, infinite⟩
    refine ⟨(coefficients[exponent], exponent), ?_, infinite⟩
    rw [List.mem_zipIdx_iff_getElem?]
    exact List.getElem?_eq_getElem inBounds

/-- The fractions that are tried as roots are rounded to finite doubles. -/
theorem exists_double_of_candidate {root : ℚ} (member : root ∈ candidates) :
    ∃ number, Binary64.ofRat? root = some number ∧ number.isFinite = true := by
  unfold candidates at member
  rw [List.mem_mergeSort, List.mem_eraseDups] at member
  obtain ⟨numerator, inNumerators, member⟩ := List.mem_flatMap.mp member
  obtain ⟨denominator, inDenominators, rfl⟩ := List.mem_map.mp member
  have all : ∀ numerator ∈ List.range 21, ∀ denominator ∈ List.range 5,
      (Binary64.ofRat? (mkRat ((numerator : ℤ) - 10) (denominator + 1))).any Float.isFinite =
        true := by
    decide +kernel
  exact (Option.any_eq_true _ _).mp (all numerator inNumerators denominator inDenominators)

theorem fails_firstRoot? {roots : List ℚ}
    (finite : ∀ root ∈ roots, ∃ number, Binary64.ofRat? root = some number ∧
      number.isFinite = true) (coefficients : List Float) :
    Fails (firstRoot? (factoring settings) coefficients roots) ↔
      Reaches (IsNoRoot settings coefficients) (PowerOverflows coefficients.length) roots := by
  induction roots with
  | nil => simp [firstRoot?]
  | cons root others ih =>
      obtain ⟨⟨number, isNumber, numberFinite⟩, othersFinite⟩ := List.forall_mem_cons.mp finite
      have converted : (factoring settings).ofRat root = .ok number := by
        change nearestTo root = _
        unfold nearestTo
        rw [isNumber]
      have stops : PowerOverflows coefficients.length root ↔
          Fails (valueAt (factoring settings) number coefficients) := by
        rw [fails_valueAt settings numberFinite]
        simp [PowerOverflows, isNumber]
      have passes : IsNoRoot settings coefficients root ↔
          ∃ value, valueAt (factoring settings) number coefficients = .ok value ∧
            negligible coefficients value = false := by
        simp [IsNoRoot, isNumber]
      unfold firstRoot?
      rw [reaches_cons, ← ih othersFinite, stops, passes, converted, except_ok_bind, fails_bind]
      refine or_congr_right ⟨?_, ?_⟩
      · rintro ⟨value, isValue, failed⟩
        split at failed
        · exact absurd failed (not_fails_ok _)
        next notSmall => exact ⟨⟨value, isValue, Bool.eq_false_iff.mpr notSmall⟩, failed⟩
      · rintro ⟨⟨value, isValue, large⟩, failed⟩
        refine ⟨value, isValue, ?_⟩
        rw [if_neg]
        · exact failed
        · exact Bool.eq_false_iff.mp large

theorem fails_rationalRoot? (name : String) (coefficients : List Float) :
    Fails (rationalRoot? (factoring settings) name coefficients) ↔
      Reaches (IsNoRoot settings coefficients) (PowerOverflows coefficients.length)
        candidates := by
  refine (fails_bind_of_returns ?_).trans
    (fails_firstRoot? settings (fun root => exists_double_of_candidate) coefficients)
  rintro (_ | ⟨root, number⟩) -
  · exact not_fails_ok _
  · dsimp only
    split <;> exact not_fails_ok _

end Search

section Splitting

/-- One step of splitting a polynomial breaks off. -/
inductive StepBreaks : List Float → Prop
  | quadratic {c b a : Float} (breaks : QuadraticBreaks settings c b a) : StepBreaks [c, b, a]
  | squares {coefficients : List Float} (long : 3 < coefficients.length)
      (breaks : SquaresBreak settings coefficients) : StepBreaks coefficients
  | search {coefficients : List Float} (long : 3 < coefficients.length)
      (noSquares : squares? (factoring settings) coefficients = .ok none)
      (breaks : Reaches (IsNoRoot settings coefficients) (PowerOverflows coefficients.length)
        candidates) : StepBreaks coefficients

theorem fails_split? (name : String) (coefficients : List Float) :
    Fails (split? (factoring settings) name coefficients) ↔
      StepBreaks settings coefficients := by
  unfold split?
  split
  next c b a =>
    refine (fails_bind_of_returns fun _ _ => not_fails_ok _).trans
      ((fails_quadratic? settings name c b a).trans ⟨.quadratic, ?_⟩)
    rintro (breaks | ⟨long, -⟩ | ⟨long, -, -⟩)
    · exact breaks
    all_goals exact absurd long (Nat.lt_irrefl 3)
  next _ notQuadratic =>
    have breaks : StepBreaks settings coefficients ↔ 3 < coefficients.length ∧
        (SquaresBreak settings coefficients ∨
          squares? (factoring settings) coefficients = .ok none ∧
            Reaches (IsNoRoot settings coefficients) (PowerOverflows coefficients.length)
              candidates) := by
      constructor
      · intro breaks
        cases breaks with
        | quadratic => exact (notQuadratic _ _ _ rfl).elim
        | squares long breaks => exact ⟨long, .inl breaks⟩
        | search long noSquares breaks => exact ⟨long, .inr ⟨noSquares, breaks⟩⟩
      · rintro ⟨long, breaks | ⟨noSquares, breaks⟩⟩
        · exact .squares long breaks
        · exact .search long noSquares breaks
    rw [breaks]
    split
    next long =>
      rw [and_iff_right long, ← fails_squares? settings long, ← fails_rationalRoot? settings name,
        fails_bind]
      refine or_congr_right ⟨?_, ?_⟩
      · rintro ⟨_ | splitting, found, failed⟩
        · exact ⟨found, failed⟩
        · exact absurd failed (not_fails_ok _)
      · exact fun ⟨noSquares, failed⟩ => ⟨none, noSquares, failed⟩
    next short => exact iff_of_false (not_fails_ok _) fun breaks => short breaks.1

/-- Splitting a polynomial breaks off: in the first step, in a polynomial that the step
leaves, or because such a polynomial is not split and cannot be written. -/
inductive SplittingBreaks (name : String) : List Float → Prop
  | step {coefficients : List Float} (breaks : StepBreaks settings coefficients) :
      SplittingBreaks name coefficients
  | cofactor {coefficients : List Float} {splitting : Splitting Float coefficients.length}
      {cofactor : { shorter : List Float // shorter.length < coefficients.length }}
      (isSplitting : split? (factoring settings) name coefficients = .ok (some splitting))
      (member : cofactor ∈ splitting.cofactors) (breaks : SplittingBreaks name cofactor.val) :
      SplittingBreaks name coefficients
  | unwritten {coefficients : List Float} {splitting : Splitting Float coefficients.length}
      {cofactor : { shorter : List Float // shorter.length < coefficients.length }}
      (isSplitting : split? (factoring settings) name coefficients = .ok (some splitting))
      (member : cofactor ∈ splitting.cofactors)
      (isWhole : split? (factoring settings) name cofactor.val = .ok none)
      (unwritable : UnwritablePolynomial settings cofactor.val) :
      SplittingBreaks name coefficients

/-- A polynomial that is not split has no factors. -/
theorem factors?_eq_none {name : String} {coefficients : List Float} :
    factors? (factoring settings) name coefficients = .ok none ↔
      split? (factoring settings) name coefficients = .ok none := by
  unfold factors?
  rw [except_bind_eq_ok]
  constructor
  · rintro ⟨_ | splitting, isSplitting, factored⟩
    · exact isSplitting
    · obtain ⟨parts, -, same⟩ := except_bind_eq_ok.mp factored
      cases same
  · exact fun isWhole => ⟨none, isWhole, rfl⟩

theorem fails_factors? (name : String) (coefficients : List Float) :
    Fails (factors? (factoring settings) name coefficients) ↔
      SplittingBreaks settings name coefficients := by
  induction length : coefficients.length using Nat.strongRecOn generalizing coefficients with
  | ind length ih =>
      unfold factors?
      rw [fails_bind, fails_split?]
      constructor
      · rintro (breaks | ⟨_ | splitting, isSplitting, failed⟩)
        · exact .step breaks
        · exact absurd failed (not_fails_ok _)
        have failed := (fails_bind_of_returns fun _ _ => not_fails_ok _).mp failed
        obtain ⟨cofactor, member, failed⟩ := fails_mapM.mp failed
        rcases fails_bind.mp failed with failed | ⟨_ | factors, notSplit, failed⟩
        · exact .cofactor isSplitting member
            ((ih _ (length ▸ cofactor.property) cofactor.val rfl).mp failed)
        · have failed := (fails_bind_of_returns fun _ _ => not_fails_ok _).mp failed
          exact .unwritten isSplitting member ((factors?_eq_none settings).mp notSplit)
            ((fails_polynomialExpr settings name _).mp failed)
        · exact absurd failed (not_fails_ok _)
      · intro breaks
        cases breaks with
        | step breaks => exact .inl breaks
        | @cofactor _ splitting cofactor isSplitting member breaks =>
            refine .inr ⟨some splitting, isSplitting, ?_⟩
            refine (fails_bind_of_returns fun _ _ => not_fails_ok _).mpr
              (fails_mapM.mpr ⟨cofactor, member, fails_bind.mpr (.inl ?_)⟩)
            exact (ih _ (length ▸ cofactor.property) cofactor.val rfl).mpr breaks
        | @unwritten _ splitting cofactor isSplitting member isWhole unwritable =>
            refine .inr ⟨some splitting, isSplitting, ?_⟩
            refine (fails_bind_of_returns fun _ _ => not_fails_ok _).mpr
              (fails_mapM.mpr ⟨cofactor, member, fails_bind.mpr (.inr ⟨none, ?_, ?_⟩)⟩)
            · exact (factors?_eq_none settings).mpr isWhole
            · exact (fails_bind_of_returns fun _ _ => not_fails_ok _).mpr
                ((fails_polynomialExpr settings name _).mpr unwritable)

end Splitting

end Doubles

end ExprCalculus
