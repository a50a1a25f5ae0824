import ExprCalculus.Polynomial.Expansion
import ExprCalculus.Polynomial.Factorization
import ExprCalculus.Proofs.Polynomial.Monomials
import ExprCalculus.Proofs.Rebuilding.Simplification

/-!
# Properties that expanding and factoring keep

Expanded and factored expressions are put together from parts of the expression,
constants, signs and operators.  Factoring goes through lists of powers, which keep the
names of variables only, so the property is carried there as a property of those names.
-/

namespace ExprCalculus

section Constants

variable {α : Type} {arithmetic : FactoringArithmetic α} {name : String}

theorem Monomial.highest_of_constant {monomials : List (Monomial α)}
    (constant : ∀ monomial ∈ monomials, monomial.powers.of name = 0) :
    monomials.foldl (fun highest monomial => max highest (monomial.powers.of name)) 0 = 0 := by
  induction monomials with
  | nil => rfl
  | cons first rest ih =>
      obtain ⟨firstConstant, restConstant⟩ := List.forall_mem_cons.mp constant
      rw [List.foldl_cons, firstConstant, Nat.max_self, ih restConstant]

/-- A polynomial of degree at most one is not split. -/
theorem Factorization.factors?_of_short {coefficients : List α}
    (short : coefficients.length < 3) :
    Factorization.factors? arithmetic name coefficients = .ok none := by
  have unsplit : Factorization.split? arithmetic name coefficients = .ok none := by
    unfold Factorization.split?
    split
    · simp at short
    · rw [if_neg (by omega)]
      rfl
  unfold Factorization.factors?
  rw [unsplit]
  rfl

end Constants

namespace Rebuilding

variable {α : Type} {holds : Expr α → Prop} (rebuilding : Rebuilding holds)
include rebuilding

section Expansion

variable {left right : Expr α}

theorem distributeRight (leftGiven : holds left) (rightGiven : holds right) :
    holds (Expr.distributeRight left right) := by
  fun_induction Expr.distributeRight left right with
  | case1 first second firstIH secondIH =>
      exact rebuilding.binary .add (firstIH (rebuilding.below_left rightGiven))
        (secondIH (rebuilding.below_right rightGiven))
  | case2 first second firstIH secondIH =>
      exact rebuilding.binary .subtract (firstIH (rebuilding.below_left rightGiven))
        (secondIH (rebuilding.below_right rightGiven))
  | case3 => exact rebuilding.binary .multiply leftGiven rightGiven

theorem distribute (leftGiven : holds left) (rightGiven : holds right) :
    holds (Expr.distribute left right) := by
  fun_induction Expr.distribute left right with
  | case1 first second right firstIH secondIH =>
      exact rebuilding.binary .add (firstIH (rebuilding.below_left leftGiven) rightGiven)
        (secondIH (rebuilding.below_right leftGiven) rightGiven)
  | case2 first second right firstIH secondIH =>
      exact rebuilding.binary .subtract (firstIH (rebuilding.below_left leftGiven) rightGiven)
        (secondIH (rebuilding.below_right leftGiven) rightGiven)
  | case3 => exact rebuilding.distributeRight leftGiven rightGiven

theorem twiceProduct (arithmetic : Arithmetic α) (leftGiven : holds left)
    (rightGiven : holds right) : holds (Expr.twiceProduct arithmetic left right) :=
  rebuilding.distribute (rebuilding.distribute (rebuilding.const _) leftGiven) rightGiven

theorem expandedSquare (arithmetic : Arithmetic α) {base : Expr α} (given : holds base) :
    holds (Expr.expandedSquare arithmetic base) := by
  fun_induction Expr.expandedSquare arithmetic base with
  | case1 first second firstIH secondIH =>
      have firstGiven := rebuilding.below_left given
      have secondGiven := rebuilding.below_right given
      have twice := rebuilding.twiceProduct arithmetic firstGiven secondGiven
      exact rebuilding.binary .add (rebuilding.binary .add (firstIH firstGiven) twice)
        (secondIH secondGiven)
  | case2 first second firstIH secondIH =>
      have firstGiven := rebuilding.below_left given
      have secondGiven := rebuilding.below_right given
      have twice := rebuilding.twiceProduct arithmetic firstGiven secondGiven
      exact rebuilding.binary .add (rebuilding.binary .subtract (firstIH firstGiven) twice)
        (secondIH secondGiven)
  | case3 => exact rebuilding.binary .power given (rebuilding.const _)

end Expansion

section Factors

theorem foldl_mul {factor : Expr α} {factors : List (Expr α)} (given : holds factor)
    (allGiven : ∀ other ∈ factors, holds other) : holds (factors.foldl (· * ·) factor) := by
  induction factors generalizing factor with
  | nil => exact given
  | cons first rest ih =>
      obtain ⟨firstGiven, restGiven⟩ := List.forall_mem_cons.mp allGiven
      exact ih (rebuilding.binary .multiply given firstGiven) restGiven

variable {arithmetic : FactoringArithmetic α}

theorem ofProduct {factors : List (Expr α)} {result : Expr α}
    (given : ∀ factor ∈ factors, holds factor)
    (made : Factorization.product arithmetic factors = .ok result) : holds result := by
  unfold Factorization.product at made
  dsimp only at made
  have othersGiven : ∀ factor ∈ factors.filter fun factor => factor.kind ≠ .constant,
      holds factor := fun factor member => given factor (List.mem_of_mem_filter member)
  split at made
  next =>
    obtain ⟨constant, -, same⟩ := except_bind_eq_ok.mp made
    cases same
    exact rebuilding.const _
  next first rest areOthers =>
    rw [areOthers] at othersGiven
    obtain ⟨firstGiven, restGiven⟩ := List.forall_mem_cons.mp othersGiven
    split at made
    · cases made
      exact rebuilding.foldl_mul (rebuilding.negate firstGiven) restGiven
    split at made
    · obtain ⟨constant, -, same⟩ := except_bind_eq_ok.mp made
      cases same
      exact rebuilding.foldl_mul (rebuilding.const _) othersGiven
    · cases made
      exact rebuilding.foldl_mul firstGiven restGiven

end Factors

section Monomials

omit rebuilding

/-- The variables of some powers have the property. -/
def Named (holds : Expr α → Prop) (powers : Powers) : Prop :=
  ∀ entry ∈ powers, holds (.var entry.1)

variable {powers others : Powers}

theorem Named.raise (named : Named holds powers) {name : String} (given : holds (.var name))
    (power : Nat) : Named holds (powers.raise name power) := by
  fun_induction Powers.raise powers name power with
  | case1 => exact List.forall_mem_singleton.mpr given
  | case2 present rest =>
      exact List.forall_mem_cons.mpr (List.forall_mem_cons.mp named)
  | case3 other present rest _ ih =>
      obtain ⟨otherGiven, restNamed⟩ := List.forall_mem_cons.mp named
      exact List.forall_mem_cons.mpr ⟨otherGiven, ih restNamed⟩

theorem Named.mul (named : Named holds powers) (othersNamed : Named holds others) :
    Named holds (powers.mul others) := by
  unfold Powers.mul
  induction others generalizing powers with
  | nil => exact named
  | cons entry rest ih =>
      obtain ⟨entryGiven, restNamed⟩ := List.forall_mem_cons.mp othersNamed
      exact ih (named.raise entryGiven entry.2) restNamed

/-- Powers whose names are kept in part. -/
theorem Named.filterMap (named : Named holds powers)
    {kept : String × Nat → Option (String × Nat)}
    (keeps : ∀ entry other, kept entry = some other → other.1 = entry.1) :
    Named holds (powers.filterMap kept) := by
  intro other member
  obtain ⟨entry, found, isKept⟩ := List.mem_filterMap.mp member
  rw [keeps entry other isKept]
  exact named entry found

theorem Named.without (named : Named holds powers) (common : Powers) :
    Named holds (powers.without common) := by
  apply named.filterMap
  rintro ⟨name, power⟩ other isKept
  dsimp only at isKept
  split at isKept <;> cases isKept
  rfl

theorem named_commonPowers {monomials : List (Monomial α)}
    (named : ∀ monomial ∈ monomials, Named holds monomial.powers) :
    Named holds (Monomial.commonPowers monomials) := by
  cases monomials with
  | nil => exact List.forall_mem_nil _
  | cons first rest =>
      apply (named first List.mem_cons_self).filterMap
      rintro ⟨name, power⟩ other isKept
      dsimp only at isKept
      split at isKept <;> cases isKept
      rfl

variable {arithmetic : FactoringArithmetic α}

include rebuilding

theorem named_ofFactor? {factor : Expr α} {monomial : Monomial α} (given : holds factor)
    (isMonomial : Monomial.ofFactor? arithmetic factor = .ok (some monomial)) :
    Named holds monomial.powers := by
  fun_induction Monomial.ofFactor? arithmetic factor generalizing monomial with
  | case1 value =>
      cases isMonomial
      exact List.forall_mem_nil _
  | case2 name =>
      cases isMonomial
      exact List.forall_mem_singleton.mpr given
  | case3 operand ih =>
      obtain ⟨inner?, isInner, same⟩ := except_bind_eq_ok.mp isMonomial
      obtain ⟨inner, rfl, rfl⟩ := Option.map_eq_some_iff.mp (Except.ok.inj same)
      have innerNamed := ih (rebuilding.below_unary given) isInner
      exact innerNamed
  | case4 name value =>
      obtain ⟨exponent?, -, same⟩ := except_bind_eq_ok.mp isMonomial
      obtain ⟨exponent, rfl, rfl⟩ := Option.map_eq_some_iff.mp (Except.ok.inj same)
      exact List.forall_mem_singleton.mpr (rebuilding.below_left given)
  | case5 left right leftIH rightIH =>
      obtain ⟨first?, isFirst, rest⟩ := except_bind_eq_ok.mp isMonomial
      obtain ⟨second?, isSecond, same⟩ := except_bind_eq_ok.mp rest
      obtain ⟨first, rfl, total⟩ := Option.bind_eq_some_iff.mp (Except.ok.inj same)
      obtain ⟨second, rfl, rfl⟩ := Option.map_eq_some_iff.mp total
      have leftNamed := leftIH (rebuilding.below_left given) isFirst
      exact leftNamed.mul (rightIH (rebuilding.below_right given) isSecond)
  | case6 => cases isMonomial

theorem named_ofTerms? {terms : List (Term α)} {monomials : List (Monomial α)}
    (given : ∀ term ∈ terms, ∀ base ∈ term.base?, holds base)
    (areMonomials : Monomial.ofTerms? arithmetic terms = .ok (some monomials)) :
    ∀ monomial ∈ monomials, Named holds monomial.powers := by
  fun_induction Monomial.ofTerms? arithmetic terms generalizing monomials with
  | case1 =>
      cases areMonomials
      exact List.forall_mem_nil _
  | case2 coefficient rest ih =>
      obtain ⟨-, restGiven⟩ := List.forall_mem_cons.mp given
      obtain ⟨others?, areOthers, same⟩ := except_bind_eq_ok.mp areMonomials
      obtain ⟨others, rfl, rfl⟩ := Option.map_eq_some_iff.mp (Except.ok.inj same)
      exact List.forall_mem_cons.mpr ⟨List.forall_mem_nil _, ih restGiven areOthers⟩
  | case3 coefficient base rest ih =>
      obtain ⟨baseGiven, restGiven⟩ := List.forall_mem_cons.mp given
      obtain ⟨monomial?, isMonomial, remaining⟩ := except_bind_eq_ok.mp areMonomials
      cases monomial? with
      | none => cases remaining
      | some monomial =>
          obtain ⟨others?, areOthers, same⟩ := except_bind_eq_ok.mp remaining
          obtain ⟨others, rfl, rfl⟩ := Option.map_eq_some_iff.mp (Except.ok.inj same)
          have baseNamed := rebuilding.named_ofFactor? (baseGiven base rfl) isMonomial
          exact List.forall_mem_cons.mpr ⟨baseNamed, ih restGiven areOthers⟩

/-- The variables of the monomials of an expression have the property. -/
theorem named_ofExpr? {expression : Expr α} {monomials : List (Monomial α)}
    (given : holds expression)
    (areMonomials : Monomial.ofExpr? arithmetic expression = .ok (some monomials)) :
    ∀ monomial ∈ monomials, Named holds monomial.powers :=
  rebuilding.named_ofTerms? (rebuilding.base_split arithmetic.toArithmetic given) areMonomials

theorem ofPowerExpr {name : String} {power : Nat} {result : Expr α} (given : holds (.var name))
    (made : Monomial.powerExpr arithmetic name power = .ok result) : holds result := by
  unfold Monomial.powerExpr at made
  split at made
  · cases made
    exact given
  · obtain ⟨exponent, -, same⟩ := except_bind_eq_ok.mp made
    cases same
    exact rebuilding.binary .power given (rebuilding.const _)

theorem ofPowerExprs {results : List (Expr α)} (named : Named holds powers)
    (made : Monomial.powerExprs arithmetic powers = .ok results) :
    ∀ result ∈ results, holds result := by
  intro result member
  obtain ⟨entry, found, isResult⟩ := exists_of_mem_mapM made member
  exact rebuilding.ofPowerExpr (named entry found) isResult

theorem ofPowersExpr? {base? : Option (Expr α)} (named : Named holds powers)
    (made : Monomial.powersExpr? arithmetic powers = .ok base?) : ∀ base ∈ base?, holds base := by
  obtain ⟨factors, areFactors, rest⟩ := except_bind_eq_ok.mp made
  have given := rebuilding.ofPowerExprs named areFactors
  cases factors with
  | nil =>
      cases rest
      exact nofun
  | cons first others =>
      cases rest
      rintro _ ⟨⟩
      obtain ⟨firstGiven, othersGiven⟩ := List.forall_mem_cons.mp given
      exact rebuilding.foldl_mul firstGiven othersGiven

/-- A sum of terms that are made one by one, each with a base that has the property. -/
theorem join_of_made {β : Type} {entries : List β} {terms : List (Term α)}
    {image : β → Except NumericFault (Term α)} (made : entries.mapM image = .ok terms)
    (given : ∀ entry ∈ entries, ∀ term, image entry = .ok term →
      ∀ base ∈ term.base?, holds base) :
    holds (Term.join arithmetic.toArithmetic terms) := by
  refine rebuilding.join arithmetic.toArithmetic fun term member => ?_
  obtain ⟨entry, found, isTerm⟩ := exists_of_mem_mapM made member
  exact given entry found term isTerm

theorem ofSumExpr {monomials : List (Monomial α)} {result : Expr α}
    (named : ∀ monomial ∈ monomials, Named holds monomial.powers)
    (made : Monomial.sumExpr arithmetic monomials = .ok result) : holds result := by
  obtain ⟨terms, areTerms, same⟩ := except_bind_eq_ok.mp made
  cases same
  refine rebuilding.join_of_made areTerms fun monomial member term isTerm => ?_
  obtain ⟨coefficient, -, rest⟩ := except_bind_eq_ok.mp isTerm
  obtain ⟨base?, isBase, same⟩ := except_bind_eq_ok.mp rest
  cases same
  exact rebuilding.ofPowersExpr? (named monomial member) isBase

end Monomials

section Splitting

variable {arithmetic : FactoringArithmetic α} {name : String} {coefficients : List α}

variable (given : holds (.var name))
include given

/-- A polynomial in a variable with the property. -/
theorem ofPolynomialExpr {result : Expr α}
    (made : Monomial.polynomialExpr arithmetic name coefficients = .ok result) :
    holds result := by
  obtain ⟨terms, areTerms, same⟩ := except_bind_eq_ok.mp made
  cases same
  refine rebuilding.join_of_made areTerms ?_
  rintro ⟨coefficient, power⟩ - term isTerm
  dsimp only at isTerm
  split at isTerm
  · obtain ⟨base?, noBase, rest⟩ := except_bind_eq_ok.mp isTerm
    obtain ⟨snapped, -, same⟩ := except_bind_eq_ok.mp rest
    cases noBase
    cases same
    exact nofun
  · obtain ⟨base?, isBase, rest⟩ := except_bind_eq_ok.mp isTerm
    obtain ⟨snapped, -, same⟩ := except_bind_eq_ok.mp rest
    cases same
    cases isPower : Monomial.powerExpr arithmetic name power with
    | error fault =>
        rw [isPower] at isBase
        cases isBase
    | ok base =>
        rw [isPower] at isBase
        cases isBase
        rintro _ ⟨⟩
        exact rebuilding.ofPowerExpr given isPower

theorem linearFactor (root : Rat) :
    holds (Factorization.linearFactor arithmetic name root) := by
  have leading : holds (if root.den = 1 then .var name else
      .const (arithmetic.ofInt root.den) * .var name) := by
    split
    · exact given
    · exact rebuilding.binary .multiply (rebuilding.const _) given
  unfold Factorization.linearFactor
  dsimp only
  split
  · exact leading
  split
  · exact rebuilding.binary .subtract leading (rebuilding.const _)
  · exact rebuilding.binary .add leading (rebuilding.const _)

theorem ofQuadratic? {c b a : α} {factors : List (Expr α)}
    (made : Factorization.quadratic? arithmetic name c b a = .ok (some factors)) :
    ∀ factor ∈ factors, holds factor := by
  have linear (root : Rat) : holds (Factorization.linearFactor arithmetic name root) :=
    rebuilding.linearFactor given root
  unfold Factorization.quadratic? at made
  dsimp only at made
  split at made
  · cases made
  split at made
  · obtain ⟨_ | root, -, rest⟩ := except_bind_eq_ok.mp made
    · cases rest
    obtain ⟨scale, -, same⟩ := except_bind_eq_ok.mp rest
    cases same
    exact List.forall_mem_cons.mpr ⟨rebuilding.const _, List.forall_mem_singleton.mpr
      (rebuilding.binary .power (linear root) (rebuilding.const _))⟩
  · obtain ⟨distance, -, rest⟩ := except_bind_eq_ok.mp made
    obtain ⟨_ | upper, -, rest⟩ := except_bind_eq_ok.mp rest
    · obtain ⟨lower?, -, rest⟩ := except_bind_eq_ok.mp rest
      cases rest
    obtain ⟨_ | lower, -, rest⟩ := except_bind_eq_ok.mp rest
    · cases rest
    dsimp only at rest
    split at rest
    all_goals
      obtain ⟨scale, -, same⟩ := except_bind_eq_ok.mp rest
      cases same
      exact List.forall_mem_cons.mpr ⟨rebuilding.const _, List.forall_mem_cons.mpr
        ⟨linear _, List.forall_mem_singleton.mpr (linear _)⟩⟩

omit given in
theorem ofSquares? {splitting : Factorization.Splitting α coefficients.length}
    (made : Factorization.squares? arithmetic coefficients = .ok (some splitting)) :
    ∀ factor ∈ splitting.factors, holds factor := by
  unfold Factorization.squares? at made
  dsimp only at made
  split at made
  rotate_left
  · cases made
  split at made
  rotate_left
  · cases made
  split at made
  · cases made
  obtain ⟨_ | leadingRoot, -, rest⟩ := except_bind_eq_ok.mp made
  · cases rest
  obtain ⟨_ | constantRoot, -, same⟩ := except_bind_eq_ok.mp rest
  · cases same
  cases same
  dsimp only
  split
  · exact List.forall_mem_singleton.mpr (rebuilding.const _)
  · exact List.forall_mem_nil _

theorem ofRationalRoot? {splitting : Factorization.Splitting α coefficients.length}
    (made : Factorization.rationalRoot? arithmetic name coefficients = .ok (some splitting)) :
    ∀ factor ∈ splitting.factors, holds factor := by
  obtain ⟨_ | ⟨root, number⟩, -, rest⟩ := except_bind_eq_ok.mp made
  · cases rest
  dsimp only at rest
  split at rest
  · cases rest
    exact List.forall_mem_singleton.mpr (rebuilding.linearFactor given root)
  · cases rest

theorem ofSplit? {splitting : Factorization.Splitting α coefficients.length}
    (made : Factorization.split? arithmetic name coefficients = .ok (some splitting)) :
    ∀ factor ∈ splitting.factors, holds factor := by
  unfold Factorization.split? at made
  split at made
  · obtain ⟨factors?, areFactors, same⟩ := except_bind_eq_ok.mp made
    obtain ⟨factors, rfl, rfl⟩ := Option.map_eq_some_iff.mp (Except.ok.inj same)
    exact rebuilding.ofQuadratic? given areFactors
  split at made
  · obtain ⟨squares?, areSquares, tried⟩ := except_bind_eq_ok.mp made
    cases squares? with
    | none => exact rebuilding.ofRationalRoot? given tried
    | some squares =>
        cases tried
        exact rebuilding.ofSquares? areSquares
  · cases made

/-- The factors of a polynomial in a variable with the property. -/
theorem ofFactors? {factors : List (Expr α)}
    (made : Factorization.factors? arithmetic name coefficients = .ok (some factors)) :
    ∀ factor ∈ factors, holds factor := by
  induction length : coefficients.length using Nat.strongRecOn
    generalizing coefficients factors with
  | ind length ih =>
      unfold Factorization.factors? at made
      obtain ⟨_ | splitting, isSplitting, rest⟩ := except_bind_eq_ok.mp made
      · cases rest
      obtain ⟨parts, areParts, same⟩ := except_bind_eq_ok.mp rest
      cases same
      refine List.forall_mem_append.mpr ⟨rebuilding.ofSplit? given isSplitting, ?_⟩
      intro factor member
      obtain ⟨part, inParts, inPart⟩ := List.mem_flatten.mp member
      obtain ⟨cofactor, -, isPart⟩ := exists_of_mem_mapM areParts inParts
      obtain ⟨_ | found, isFound, remaining⟩ := except_bind_eq_ok.mp isPart
      · obtain ⟨polynomial, isPolynomial, same⟩ := except_bind_eq_ok.mp remaining
        cases same
        rw [List.mem_singleton.mp inPart]
        exact rebuilding.ofPolynomialExpr given isPolynomial
      · cases remaining
        exact ih _ (length ▸ cofactor.property) isFound rfl factor inPart

end Splitting

section Sums

variable {arithmetic : FactoringArithmetic α} {monomials rest : List (Monomial α)}
  {front : List (Expr α)}

/-- The factors taken out of a sum have the property, and so have the variables that are
left. -/
theorem ofTakeCommon (named : ∀ monomial ∈ monomials, Named holds monomial.powers)
    (taken : Factorization.takeCommon arithmetic monomials = .ok (front, rest)) :
    (∀ factor ∈ front, holds factor) ∧ ∀ monomial ∈ rest, Named holds monomial.powers := by
  obtain ⟨common, isCommon, remaining⟩ := except_bind_eq_ok.mp taken
  have commonNamed : Named holds common.powers := by
    obtain ⟨content, -, same⟩ := except_bind_eq_ok.mp isCommon
    cases same
    exact named_commonPowers named
  split at remaining
  · obtain ⟨powers, arePowers, divided⟩ := except_bind_eq_ok.mp remaining
    obtain ⟨others, areDivided, same⟩ := except_bind_eq_ok.mp divided
    cases same
    refine ⟨List.forall_mem_cons.mpr
      ⟨rebuilding.const _, rebuilding.ofPowerExprs commonNamed arePowers⟩, ?_⟩
    intro quotient member
    obtain ⟨monomial, found, isQuotient⟩ := exists_of_mem_mapM areDivided member
    obtain ⟨coefficient, -, same⟩ := except_bind_eq_ok.mp isQuotient
    cases same
    exact (named monomial found).without common.powers
  · cases remaining
    exact ⟨List.forall_mem_nil _, named⟩

omit rebuilding in
/-- A polynomial that is split has its variable in one of its monomials: in any other
variable the monomials are constants, and a single coefficient is not split. -/
theorem named_of_factors? {name : String} {coefficients : List α} {factors : List (Expr α)}
    (named : ∀ monomial ∈ monomials, Named holds monomial.powers)
    (isRead : Monomial.coefficientsIn? arithmetic name monomials = some coefficients)
    (isSplit : Factorization.factors? arithmetic name coefficients = .ok (some factors)) :
    holds (.var name) := by
  obtain ⟨onlyName, isList⟩ := Option.ite_none_right_eq_some.mp isRead
  have entryNamed {monomial : Monomial α} (member : monomial ∈ monomials)
      {entry : String × Nat} (inPowers : entry ∈ monomial.powers) : entry.1 = name :=
    of_decide_eq_true (List.all_eq_true.mp (List.all_eq_true.mp onlyName monomial member)
      entry inPowers)
  by_cases occurs : ∃ monomial ∈ monomials, ∃ entry, entry ∈ monomial.powers
  · obtain ⟨monomial, member, entry, inPowers⟩ := occurs
    rw [← entryNamed member inPowers]
    exact named monomial member entry inPowers
  · have constant : ∀ monomial ∈ monomials, monomial.powers.of name = 0 := by
      intro monomial member
      have noPowers : monomial.powers = [] := List.eq_nil_iff_forall_not_mem.mpr
        fun entry inPowers => occurs ⟨monomial, member, entry, inPowers⟩
      rw [noPowers]
      rfl
    have single : coefficients.length = 1 := by
      rw [← Option.some.inj isList, List.length_map, List.length_range,
        Monomial.highest_of_constant constant]
    rw [Factorization.factors?_of_short (by omega)] at isSplit
    cases isSplit

/-- A sum that is not split, behind the factors in front of it. -/
theorem ofUnsplit {product : Expr α} (frontGiven : ∀ factor ∈ front, holds factor)
    (restNamed : ∀ monomial ∈ rest, Named holds monomial.powers)
    (isProduct : (do
      let sum ← Monomial.sumExpr arithmetic rest
      let written ← Factorization.product arithmetic (front ++ [sum])
      return some written) = .ok (some product)) : holds product := by
  obtain ⟨sum, isSum, further⟩ := except_bind_eq_ok.mp isProduct
  obtain ⟨written, isWritten, same⟩ := except_bind_eq_ok.mp further
  cases same
  refine rebuilding.ofProduct (List.forall_mem_append.mpr ⟨frontGiven, ?_⟩) isWritten
  exact List.forall_mem_singleton.mpr (rebuilding.ofSumExpr restNamed isSum)

theorem ofMonomials? {requested? : Option String} {product : Expr α}
    (named : ∀ monomial ∈ monomials, Named holds monomial.powers)
    (made : Factorization.ofMonomials? arithmetic requested? monomials = .ok (some product)) :
    holds product := by
  obtain ⟨⟨front, rest⟩, taken, remaining⟩ := except_bind_eq_ok.mp made
  obtain ⟨frontGiven, restNamed⟩ := rebuilding.ofTakeCommon named taken
  dsimp only at remaining
  split at remaining
  next name coefficients isPolynomial =>
    obtain ⟨chosen, -, read?⟩ := Option.bind_eq_some_iff.mp isPolynomial
    obtain ⟨read, isRead, same⟩ := Option.bind_eq_some_iff.mp read?
    cases same
    obtain ⟨split?, isSplit, written⟩ := except_bind_eq_ok.mp remaining
    split at written
    next factors =>
      have given := named_of_factors? restNamed isRead isSplit
      obtain ⟨result, isResult, same⟩ := except_bind_eq_ok.mp written
      cases same
      refine rebuilding.ofProduct (List.forall_mem_append.mpr ⟨frontGiven, ?_⟩) isResult
      exact rebuilding.ofFactors? given isSplit
    next => cases written
    next => exact rebuilding.ofUnsplit frontGiven restNamed written
  next =>
    cases front with
    | nil => cases remaining
    | cons => exact rebuilding.ofUnsplit frontGiven restNamed remaining

/-- The factored form of an expression has the property if its simplified form has it,
whatever variable is requested. -/
theorem ofFactor {requested? : Option String} {expression result : Expr α}
    (simplifiedGiven : ∀ simplified,
      (expression.simplify arithmetic.toArithmetic).outcome = .ok simplified → holds simplified)
    (factored : (expression.factor arithmetic requested?).outcome = .ok result) :
    holds result := by
  obtain ⟨_, -, remaining⟩ := Traced.outcome_bind_eq_ok.mp factored
  obtain ⟨simplified, isSimplified, remaining⟩ := Traced.outcome_bind_eq_ok.mp remaining
  have given := simplifiedGiven simplified (mapError_eq_ok.mp isSimplified)
  obtain ⟨monomials?, areMonomials, remaining⟩ := Traced.outcome_bind_eq_ok.mp remaining
  split at remaining
  next first second rest =>
    have named := rebuilding.named_ofExpr? given (mapError_eq_ok.mp areMonomials)
    obtain ⟨product?, isProduct, written⟩ := Traced.outcome_bind_eq_ok.mp remaining
    cases product? with
    | none =>
        obtain ⟨_, -, same⟩ := Traced.outcome_bind_eq_ok.mp written
        cases same
        exact given
    | some product =>
        cases written
        exact rebuilding.ofMonomials? named (mapError_eq_ok.mp isProduct)
  next =>
    obtain ⟨_, -, same⟩ := Traced.outcome_bind_eq_ok.mp remaining
    cases same
    exact given

end Sums

end Rebuilding

namespace Renewing

variable {α : Type} {holds : Expr α → Prop} {arithmetic : Arithmetic α}

mutual

/-- The expanded form of an expression with the property has it. -/
theorem ofExpand (renewing : Renewing holds) {expression : Expr α} (given : holds expression) :
    holds (expression.expand arithmetic) := by
  have childGiven := renewing.child given
  cases expression with
  | const _ | var _ => exact given
  | unary operator operand =>
      exact renewing.unary given (renewing.ofExpand (childGiven operand List.mem_cons_self))
  | binary operator left right =>
      have leftGiven := renewing.ofExpand (renewing.below_left given)
      have rightGiven := renewing.ofExpand (renewing.below_right given)
      unfold Expr.expand
      dsimp only
      split
      · exact renewing.distribute leftGiven rightGiven
      split
      · exact renewing.expandedSquare arithmetic leftGiven
      · exact renewing.binary .power leftGiven rightGiven
      · exact renewing.binary operator leftGiven rightGiven
  | call name first others =>
      exact renewing.call given (renewing.ofExpand (childGiven first List.mem_cons_self))
        (renewing.ofExpandAll fun other member =>
          childGiven other (List.mem_cons_of_mem _ member))
  | integral integrand name =>
      exact renewing.integral given
        (renewing.ofExpand (childGiven integrand List.mem_cons_self))

theorem ofExpandAll (renewing : Renewing holds) {expressions : List (Expr α)}
    (given : ∀ expression ∈ expressions, holds expression) :
    ∀ result ∈ Expr.expandAll arithmetic expressions, holds result := by
  match expressions with
  | [] => exact nofun
  | expression :: rest =>
      obtain ⟨expressionGiven, restGiven⟩ := List.forall_mem_cons.mp given
      exact List.forall_mem_cons.mpr
        ⟨renewing.ofExpand expressionGiven, renewing.ofExpandAll restGiven⟩

end

end Renewing

end ExprCalculus
