import ExprCalculus.Proofs.Outcomes
import ExprCalculus.Proofs.Polynomial.SharedPowers
import ExprCalculus.Proofs.Simplification.TermLists

/-!
# Polynomials written and read again

A polynomial is written as a sum, highest power first, and without the coefficients that
count as zero.  Splitting the sum into terms, reading these as monomials and collecting
the coefficients gives the polynomial back, if each coefficient that is kept is legible:
it is not changed when it is written, and the power it stands at can be told from the
exponents of the others.
-/

namespace ExprCalculus

namespace Monomial

variable {α : Type} (arithmetic : FactoringArithmetic α) (name : String)

/-- A polynomial with some coefficients is written as an expression, and from its monomials
the given coefficients are found. -/
def ReadsBack (coefficients found : List α) : Prop :=
  ∃ tree monomials, polynomialExpr arithmetic name coefficients = .ok tree ∧
    ofExpr? arithmetic tree = .ok (some monomials) ∧
    coefficientsIn? arithmetic name monomials = some found

/-- A power is written as a number that it is read from, and that counts as the same as the
exponent of no other power. -/
structure Spells (number : α) (power : ℕ) : Prop where
  written : arithmetic.ofRat power = .ok number
  read : 0 < power → arithmetic.exponent? number = .ok (some power)
  unique : ∀ other another, arithmetic.exponent? other = .ok (some another) →
    arithmetic.same number other = true → power = another

/-- A coefficient that stands at a power is written and read without a change. -/
structure IsLegible (coefficient : α) (power : ℕ) : Prop where
  snap : arithmetic.snap coefficient = .ok coefficient
  near_one : arithmetic.near coefficient arithmetic.one = true → coefficient = arithmetic.one
  near_neg_one : arithmetic.near coefficient (arithmetic.ofInt (-1)) = true →
    coefficient = arithmetic.ofInt (-1)
  zero_add : arithmetic.add arithmetic.zero coefficient = coefficient
  exponent : ∃ number, Spells arithmetic number power

/-- The base of the term that a power of a variable is written as. -/
inductive IsBase : ℕ → Option (Expr α) → Prop
  | constant : IsBase 0 none
  | linear : IsBase 1 (some (.var name))
  | higher {power : ℕ} {number : α} (notOne : power ≠ 1) (positive : 0 < power)
      (spelled : Spells arithmetic number power) :
      IsBase power (some ((.var name : Expr α) ^ (.const number : Expr α)))

def baseOf? (power : ℕ) : Option (Expr α) :=
  if power = 0 then none
  else if power = 1 then some (.var name)
  else match arithmetic.ofRat power with
    | .ok number => some ((.var name : Expr α) ^ (.const number : Expr α))
    | .error _ => none

def atPower (coefficient : α) (power : ℕ) : Monomial α :=
  ⟨coefficient, if power = 0 then [] else [(name, power)]⟩

section Bases

variable {arithmetic name} {power : ℕ} {base? : Option (Expr α)}

theorem IsBase.atomic (isBase : IsBase arithmetic name power base?) :
    ∀ base ∈ base?, Term.isAtomic base = true := by
  intro base member
  cases isBase with
  | constant => cases member
  | linear | higher =>
      cases member
      rfl

/-- Bases that count as the same are those of one power. -/
theorem IsBase.power_eq {other : ℕ} {otherBase? : Option (Expr α)}
    (isBase : IsBase arithmetic name power base?)
    (isOther : IsBase arithmetic name other otherBase?)
    (same : Term.sameBase arithmetic.toArithmetic base? otherBase? = true) : power = other := by
  cases isBase with
  | constant =>
      cases isOther with
      | constant => rfl
      | linear | higher => cases same
  | linear =>
      cases isOther with
      | constant => cases same
      | linear => rfl
      | higher => cases same
  | higher notOne positive spelled =>
      cases isOther with
      | constant | linear => cases same
      | higher _ otherPositive otherSpelled =>
          exact spelled.unique _ _ (otherSpelled.read otherPositive)
            (Bool.and_eq_true_iff.mp same).2

theorem IsLegible.isBase {coefficient : α} (legible : IsLegible arithmetic coefficient power) :
    IsBase arithmetic name power (baseOf? arithmetic name power) := by
  obtain ⟨number, spelled⟩ := legible.exponent
  unfold baseOf?
  split
  next isZero =>
    subst isZero
    exact .constant
  next nonzero =>
    split
    next isOne =>
      subst isOne
      exact .linear
    next notOne =>
      rw [spelled.written]
      exact .higher notOne (Nat.pos_of_ne_zero nonzero) spelled

/-- A legible coefficient is written with the base of its power. -/
theorem IsLegible.written {coefficient : α} (legible : IsLegible arithmetic coefficient power) :
    (do
      let base? ← if power = 0 then pure none else some <$> powerExpr arithmetic name power
      return ⟨← arithmetic.snap coefficient, base?⟩) =
      (.ok ⟨coefficient, baseOf? arithmetic name power⟩ : Except NumericFault (Term α)) := by
  obtain ⟨number, spelled⟩ := legible.exponent
  dsimp only
  unfold baseOf? powerExpr
  split
  next =>
    rw [except_pure, except_ok_bind, legible.snap]
    rfl
  split
  next =>
    change (arithmetic.snap coefficient >>= _) = _
    rw [legible.snap]
    rfl
  next =>
    rw [spelled.written]
    change (arithmetic.snap coefficient >>= _) = _
    rw [legible.snap]
    rfl

/-- A legible coefficient is not changed when it is read again. -/
theorem IsLegible.readBack {coefficient : α} (legible : IsLegible arithmetic coefficient power)
    (base? : Option (Expr α)) :
    Term.readBack arithmetic.toArithmetic ⟨coefficient, base?⟩ = ⟨coefficient, base?⟩ := by
  cases base? with
  | none => rfl
  | some base =>
      unfold Term.readBack
      dsimp only
      split
      next nearOne => rw [← legible.near_one nearOne]
      split
      next nearMinus => rw [← legible.near_neg_one nearMinus]
      next => rfl

end Bases

section Reading

variable {arithmetic name} (mul_one : ∀ value, arithmetic.mul value arithmetic.one = value)
include mul_one

/-- A term with such a base is read as the monomial that it was written for. -/
theorem IsBase.ofTerms? {power : ℕ} {base? : Option (Expr α)}
    (isBase : IsBase arithmetic name power base?) (coefficient : α) {rest : List (Term α)}
    {monomials : List (Monomial α)} (isRest : ofTerms? arithmetic rest = .ok (some monomials)) :
    ofTerms? arithmetic (⟨coefficient, base?⟩ :: rest) =
      .ok (some (atPower name coefficient power :: monomials)) := by
  cases isBase with
  | constant =>
      rw [Monomial.ofTerms?, isRest]
      rfl
  | linear =>
      rw [Monomial.ofTerms?, ofFactor?, except_ok_bind]
      dsimp only
      rw [isRest, mul_one]
      rfl
  | @higher _ number notOne positive spelled =>
      have isFactor : ofFactor? arithmetic ((.var name : Expr α) ^ (.const number : Expr α)) =
          .ok (some ⟨arithmetic.one, [(name, power)]⟩) := by
        change (arithmetic.exponent? number >>= _) = _
        rw [spelled.read positive]
        rfl
      rw [Monomial.ofTerms?, isFactor, except_ok_bind]
      dsimp only
      rw [isRest, mul_one, atPower, if_neg positive.ne']
      rfl

theorem ofTerms?_map {entries : List (α × ℕ)}
    (legible : ∀ entry ∈ entries, IsLegible arithmetic entry.1 entry.2) :
    ofTerms? arithmetic (entries.map fun entry => ⟨entry.1, baseOf? arithmetic name entry.2⟩) =
      .ok (some (entries.map fun entry => atPower name entry.1 entry.2)) := by
  induction entries with
  | nil => rfl
  | cons entry entries ih =>
      rw [List.forall_mem_cons] at legible
      exact legible.1.isBase.ofTerms? mul_one entry.1 (ih legible.2)

end Reading

section Writing

/-- The coefficients that are written, each with its power, highest power first. -/
def kept (coefficients : List α) : List (α × ℕ) :=
  coefficients.zipIdx.reverse.filter fun entry => arithmetic.apart entry.1 arithmetic.zero

def orZero (coefficient : α) : α :=
  if arithmetic.apart coefficient arithmetic.zero then coefficient else arithmetic.zero

def termsOf (coefficients : List α) : List (Term α) :=
  (kept arithmetic coefficients).map fun entry => ⟨entry.1, baseOf? arithmetic name entry.2⟩

def monomialsOf (coefficients : List α) : List (Monomial α) :=
  (kept arithmetic coefficients).map fun entry => atPower name entry.1 entry.2

variable {arithmetic name} {coefficients : List α}

theorem mem_kept {coefficient : α} {power : ℕ} :
    (coefficient, power) ∈ kept arithmetic coefficients ↔
      coefficients[power]? = some coefficient ∧
        arithmetic.apart coefficient arithmetic.zero = true := by
  rw [kept, List.mem_filter, List.mem_reverse, List.mem_zipIdx_iff_getElem?]

theorem kept_powers_ne (coefficients : List α) :
    (kept arithmetic coefficients).Pairwise fun first second => first.2 ≠ second.2 := by
  have distinct : (coefficients.zipIdx.map Prod.snd).Nodup := by
    rw [List.zipIdx_map_snd]
    exact List.nodup_range'
  have descending := (List.pairwise_map.mp distinct).reverse
  exact (descending.imp Ne.symm).filter _

variable (legible : ∀ entry ∈ kept arithmetic coefficients, IsLegible arithmetic entry.1 entry.2)
include legible

theorem polynomialExpr_eq :
    polynomialExpr arithmetic name coefficients =
      .ok (Term.join arithmetic.toArithmetic (termsOf arithmetic name coefficients)) := by
  have written : (kept arithmetic coefficients).mapM (fun entry => do
      let base? ← if entry.2 = 0 then pure none else some <$> powerExpr arithmetic name entry.2
      return (⟨← arithmetic.snap entry.1, base?⟩ : Term α)) =
        .ok (termsOf arithmetic name coefficients) := by
    rw [mapM_eq_ok, termsOf, List.forall₂_map_right_iff, List.forall₂_same]
    exact fun entry member => (legible entry member).written
  unfold polynomialExpr
  exact except_bind_eq_ok.mpr ⟨_, written, rfl⟩

variable (tolerant : arithmetic.IsTolerant) (balanced : arithmetic.IsBalanced)
include tolerant balanced

/-- The terms of a written polynomial are those that it was written with. -/
theorem split_termsOf :
    Term.split arithmetic.toArithmetic
        (Term.join arithmetic.toArithmetic (termsOf arithmetic name coefficients)) =
      termsOf arithmetic name coefficients := by
  rw [Term.split_join tolerant balanced]
  · unfold termsOf
    rw [List.map_map]
    exact List.map_congr_left fun entry member => (legible entry member).readBack _
  · -- Terms are merged by their bases, in which exponents may count as the same.
    refine List.pairwise_map.mpr ((kept_powers_ne coefficients).imp_of_mem ?_)
    intro first second isFirst isSecond different
    rw [← Bool.not_eq_true]
    exact fun same => different
      ((legible first isFirst).isBase.power_eq (legible second isSecond).isBase same)
  · intro term member
    obtain ⟨entry, isEntry, rfl⟩ := List.mem_map.mp member
    exact (legible entry isEntry).isBase.atomic
  · intro term member
    obtain ⟨entry, isEntry, rfl⟩ := List.mem_map.mp member
    exact (mem_kept.mp isEntry).2

theorem ofExpr?_polynomialExpr :
    ofExpr? arithmetic
        (Term.join arithmetic.toArithmetic (termsOf arithmetic name coefficients)) =
      .ok (some (monomialsOf arithmetic name coefficients)) := by
  unfold ofExpr?
  rw [split_termsOf legible tolerant balanced]
  exact ofTerms?_map tolerant.mul_one legible

end Writing

section Coefficients

variable {arithmetic name} {coefficients : List α}

theorem of_atPower (name : String) (coefficient : α) (power : ℕ) :
    (atPower name coefficient power).powers.of name = power := by
  unfold atPower
  dsimp only
  split
  next isZero => exact isZero.symm
  next => rw [Powers.of_cons, if_pos rfl]

theorem names_atPower (name : String) (coefficient : α) (power : ℕ) :
    (atPower name coefficient power).powers.all (·.1 = name) = true := by
  unfold atPower
  dsimp only
  split
  next => rfl
  next => rw [List.all_cons, List.all_nil, decide_eq_true rfl, Bool.and_true]

theorem filter_zipIdx {power : ℕ} (inside : power < coefficients.length) (start : ℕ) :
    (coefficients.zipIdx start).filter (·.2 = start + power) =
      [(coefficients[power], start + power)] := by
  induction coefficients generalizing power start with
  | nil => cases inside
  | cons first rest ih =>
      rw [List.zipIdx_cons]
      cases power with
      | zero =>
          have later : (rest.zipIdx (start + 1)).filter (·.2 = start) = [] := by
            refine List.filter_eq_nil_iff.mpr fun entry member => ?_
            have behind := List.le_snd_of_mem_zipIdx member
            rw [decide_eq_true_iff]
            omega
          rw [Nat.add_zero, List.filter_cons_of_pos (by exact decide_eq_true rfl), later]
          rfl
      | succ power =>
          have shifted : start + (power + 1) = start + 1 + power := by omega
          rw [List.filter_cons_of_neg (by simp), shifted,
            ih (Nat.lt_of_succ_lt_succ inside) (start + 1)]
          rfl

/-- At most one coefficient is written at a power. -/
theorem filter_kept {power : ℕ} (inside : power < coefficients.length) :
    (kept arithmetic coefficients).filter (·.2 = power) =
      if arithmetic.apart coefficients[power] arithmetic.zero then
        [(coefficients[power], power)]
      else [] := by
  have only := filter_zipIdx inside 0
  rw [Nat.zero_add] at only
  unfold kept
  rw [List.filter_comm, List.filter_reverse, only, List.reverse_singleton, List.filter_cons,
    List.filter_nil]

theorem filter_monomialsOf (name : String) {power : ℕ} (inside : power < coefficients.length) :
    (monomialsOf arithmetic name coefficients).filter (·.powers.of name = power) =
      if arithmetic.apart coefficients[power] arithmetic.zero then
        [atPower name coefficients[power] power]
      else [] := by
  have atThis : ((fun monomial : Monomial α => decide (monomial.powers.of name = power)) ∘
      fun entry : α × ℕ => atPower name entry.1 entry.2) = fun entry => decide (entry.2 = power) :=
    funext fun entry => by rw [Function.comp_apply, of_atPower]
  rw [monomialsOf, List.filter_map, atThis, filter_kept inside]
  split <;> rfl

theorem foldl_max_le (name : String) {monomials : List (Monomial α)} {start bound : ℕ}
    (startBounded : start ≤ bound)
    (bounded : ∀ monomial ∈ monomials, monomial.powers.of name ≤ bound) :
    monomials.foldl (fun highest other => max highest (other.powers.of name)) start ≤ bound := by
  induction monomials generalizing start with
  | nil => exact startBounded
  | cons first rest ih =>
      rw [List.forall_mem_cons] at bounded
      exact ih (max_le startBounded bounded.1) bounded.2

section Found

variable (nonempty : coefficients ≠ [])
  (lastApart : arithmetic.apart (coefficients.getLast nonempty) arithmetic.zero = true)
include lastApart

/-- The highest power that is read is that of the last coefficient. -/
theorem highest_monomialsOf (name : String) :
    (monomialsOf arithmetic name coefficients).foldl
        (fun highest other => max highest (other.powers.of name)) 0 =
      coefficients.length - 1 := by
  apply le_antisymm
  · apply foldl_max_le name (Nat.zero_le _)
    unfold monomialsOf
    rw [List.forall_mem_map]
    intro entry member
    rw [of_atPower]
    obtain ⟨inside, -⟩ := List.getElem?_eq_some_iff.mp (mem_kept.mp member).1
    exact Nat.le_sub_one_of_lt inside
  · have isLast : (coefficients.getLast nonempty, coefficients.length - 1) ∈
        kept arithmetic coefficients := by
      refine mem_kept.mpr ⟨?_, lastApart⟩
      rw [← List.getLast?_eq_getElem?, List.getLast?_eq_some_getLast]
    have bounded := (le_foldl_max name (monomialsOf arithmetic name coefficients) 0).2 _
      (List.mem_map_of_mem isLast)
    rwa [of_atPower] at bounded

/-- The coefficients that are read are those that were written, and zero for the others. -/
theorem coefficientsIn?_monomialsOf
    (zero_add : ∀ entry ∈ kept arithmetic coefficients,
      arithmetic.add arithmetic.zero entry.1 = entry.1) :
    coefficientsIn? arithmetic name (monomialsOf arithmetic name coefficients) =
      some (coefficients.map (orZero arithmetic)) := by
  have names : (monomialsOf arithmetic name coefficients).all
      (fun monomial => monomial.powers.all (·.1 = name)) := by
    unfold monomialsOf
    rw [List.all_map, List.all_eq_true]
    exact fun entry _ => names_atPower name entry.1 entry.2
  unfold coefficientsIn?
  rw [if_pos names]
  dsimp only
  rw [highest_monomialsOf nonempty lastApart, Nat.sub_add_cancel (List.length_pos_iff.mpr nonempty)]
  refine congrArg some (List.ext_getElem (by simp) fun power inRange inside => ?_)
  rw [List.length_map] at inside
  rw [List.getElem_map, List.getElem_map, List.getElem_range, filter_monomialsOf name inside,
    orZero]
  split
  next isApart => exact zero_add _ (mem_kept.mpr ⟨List.getElem?_eq_getElem inside, isApart⟩)
  next => rfl

end Found

end Coefficients

/-- A polynomial is read as it was written if the coefficients that count are legible and
the last one counts. -/
theorem readsBack (tolerant : arithmetic.IsTolerant) (balanced : arithmetic.IsBalanced)
    {coefficients : List α} (nonempty : coefficients ≠ [])
    (lastApart : arithmetic.apart (coefficients.getLast nonempty) arithmetic.zero = true)
    (legible : ∀ entry ∈ kept arithmetic coefficients, IsLegible arithmetic entry.1 entry.2) :
    ReadsBack arithmetic name coefficients (coefficients.map (orZero arithmetic)) :=
  ⟨_, _, polynomialExpr_eq legible, ofExpr?_polynomialExpr legible tolerant balanced,
    coefficientsIn?_monomialsOf nonempty lastApart
      fun entry member => (legible entry member).zero_add⟩

end Monomial

end ExprCalculus
