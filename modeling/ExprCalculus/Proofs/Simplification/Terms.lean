import ExprCalculus.Simplification.Terms

/-!
# Lists of terms

Flattening an expression yields terms whose bases are atomic: a base is no
constant, no sum, difference or negation, and no product with a constant factor.
Merging keeps the bases and makes them pairwise different, and on a list whose
bases are pairwise different already it changes nothing.
-/

namespace ExprCalculus

namespace Expr

variable {α : Type}

theorem kind_eq_of_sameBy {same : α → α → Bool} {first second : Expr α}
    (equal : sameBy same first second = true) : first.kind = second.kind := by
  unfold sameBy at equal
  split at equal <;> first | rfl | cases equal

theorem exists_const_of_kind {expression : Expr α} (constant : expression.kind = .constant) :
    ∃ value, expression = .const value := by
  cases expression with
  | const value => exact ⟨value, rfl⟩
  | _ => cases constant

end Expr

namespace Term

variable {α : Type} (arithmetic : Arithmetic α)

/-- Whether an expression is its own base with coefficient one. -/
def isAtomic : Expr α → Bool
  | .const _ => false
  | .unary .negate _ => false
  | .binary .add _ _ => false
  | .binary .subtract _ _ => false
  | .binary .multiply (.const _) _ => false
  | .binary .multiply _ (.const _) => false
  | _ => true

section Shapes

variable {expression base : Expr α}

theorem isSum_eq_false (notSum : ∀ left right, expression = .binary .add left right → False)
    (notDifference : ∀ left right, expression = .binary .subtract left right → False)
    (notNegation : ∀ operand, expression = .unary .negate operand → False) :
    isSum expression = false := by
  unfold isSum
  split
  next => exact absurd rfl (notSum _ _)
  next => exact absurd rfl (notDifference _ _)
  next => exact absurd rfl (notNegation _)
  next => rfl

theorem isSum_of_isAtomic (atomic : isAtomic expression = true) : isSum expression = false := by
  unfold isSum
  split <;> first | rfl | cases atomic

theorem kind_of_isAtomic (atomic : isAtomic expression = true) :
    expression.kind ≠ .constant := by
  intro constant
  obtain ⟨value, rfl⟩ := Expr.exists_const_of_kind constant
  cases atomic

theorem ofExpr_of_isAtomic (atomic : isAtomic expression = true) :
    ofExpr arithmetic expression = ⟨arithmetic.one, some expression⟩ := by
  fun_cases ofExpr arithmetic expression with
  | case1 value => cases atomic
  | case2 value right term => cases atomic
  | case3 left value notConst term =>
      unfold isAtomic at atomic
      split at atomic <;> simp_all
  | case4 operand term => cases atomic
  | case5 => rfl

/-- The base of an expression is atomic unless it is a sum or a difference. -/
theorem isAtomic_base (found : (ofExpr arithmetic expression).base? = some base)
    (plain : isSum base = false) : isAtomic base = true := by
  fun_induction ofExpr arithmetic expression with
  | case1 => cases found
  | case2 value right term ih => exact ih found
  | case3 left value notConst term ih => exact ih found
  | case4 operand term ih => exact ih found
  | case5 expression notConst notLeft notRight notNegation =>
      cases found
      unfold isAtomic
      split
      next => exact absurd rfl (notConst _)
      next => exact absurd rfl (notNegation _)
      next => simp [isSum] at plain
      next => simp [isSum] at plain
      next => exact absurd rfl (notLeft _ _)
      next => exact absurd rfl (notRight _ _)
      next => rfl

end Shapes

section Flattening

variable {expression base : Expr α} (scale : α)

theorem flatten_of_no_base (notSum : isSum expression = false)
    (found : (ofExpr arithmetic expression).base? = none) :
    flatten arithmetic scale expression =
      [⟨arithmetic.mul scale (ofExpr arithmetic expression).coefficient, none⟩] := by
  rw [flatten]
  · split
    next => rfl
    next other foundOther =>
      rw [found] at foundOther
      cases foundOther
  all_goals
    intros
    subst expression
    simp [isSum] at notSum

theorem flatten_of_base (notSum : isSum expression = false)
    (found : (ofExpr arithmetic expression).base? = some base) (plain : isSum base = false) :
    flatten arithmetic scale expression =
      [⟨arithmetic.mul scale (ofExpr arithmetic expression).coefficient, some base⟩] := by
  rw [flatten]
  · split
    next foundNone =>
      rw [found] at foundNone
      cases foundNone
    next other foundOther =>
      rw [found] at foundOther
      cases foundOther
      simp [plain]
  all_goals
    intros
    subst expression
    simp [isSum] at notSum

theorem flatten_of_isAtomic (atomic : isAtomic base = true) :
    flatten arithmetic scale base = [⟨arithmetic.mul scale arithmetic.one, some base⟩] := by
  have plain := isSum_of_isAtomic atomic
  have itself := ofExpr_of_isAtomic arithmetic atomic
  rw [flatten_of_base arithmetic scale plain (by rw [itself]) plain, itself]

theorem flatten_const (value : α) :
    flatten arithmetic scale (.const value) = [⟨arithmetic.mul scale value, none⟩] :=
  flatten_of_no_base arithmetic scale rfl rfl

theorem flatten_multiple (coefficient : α) (atomic : isAtomic base = true) :
    flatten arithmetic scale (.const coefficient * base) =
      [⟨arithmetic.mul scale (arithmetic.mul coefficient arithmetic.one), some base⟩] := by
  have read : ofExpr arithmetic (.const coefficient * base) =
      ⟨arithmetic.mul coefficient arithmetic.one, some base⟩ := by
    change ofExpr arithmetic (.binary .multiply (.const coefficient) base) = _
    rw [ofExpr, ofExpr_of_isAtomic arithmetic atomic]
  rw [flatten_of_base arithmetic scale rfl (by rw [read]) (isSum_of_isAtomic atomic), read]

theorem flatten_neg (operand : Expr α) :
    flatten arithmetic scale (-operand) = flatten arithmetic (arithmetic.neg scale) operand := by
  change flatten arithmetic scale (.unary .negate operand) = _
  rw [flatten]

theorem flatten_add (left right : Expr α) :
    flatten arithmetic scale (left + right) =
      flatten arithmetic scale left ++ flatten arithmetic scale right := by
  change flatten arithmetic scale (.binary .add left right) = _
  rw [flatten]

theorem flatten_sub (left right : Expr α) :
    flatten arithmetic scale (left - right) =
      flatten arithmetic scale left ++ flatten arithmetic (arithmetic.neg scale) right := by
  change flatten arithmetic scale (.binary .subtract left right) = _
  rw [flatten]

/-- The bases of the terms of an expression are atomic. -/
theorem isAtomic_of_mem_flatten {term : Term α}
    (member : term ∈ flatten arithmetic scale expression) :
    ∀ base ∈ term.base?, isAtomic base = true := by
  fun_induction flatten arithmetic scale expression with
  | case1 scale left right ihLeft ihRight =>
      rcases List.mem_append.mp member with inLeft | inRight
      · exact ihLeft inLeft
      · exact ihRight inRight
  | case2 scale left right ihLeft ihRight =>
      rcases List.mem_append.mp member with inLeft | inRight
      · exact ihLeft inLeft
      · exact ihRight inRight
  | case3 scale operand ih => exact ih member
  | case4 scale expression _ _ _ coefficient found =>
      rw [List.mem_singleton.mp member]
      simp
  | case5 scale expression _ _ _ coefficient base found sum smaller ih => exact ih member
  | case6 scale expression notSum notDifference notNegation coefficient base found plain =>
      rw [List.mem_singleton.mp member]
      rintro _ ⟨⟩
      apply isAtomic_base arithmetic found
      simpa [isSum_eq_false notSum notDifference notNegation] using plain

/-- A property that passes from an expression to its children passes to its base. -/
theorem base_ofExpr_of_children {holds : Expr α → Prop}
    (passes : ∀ parent, holds parent → ∀ child ∈ parent.children, holds child)
    (given : holds expression) (found : (ofExpr arithmetic expression).base? = some base) :
    holds base := by
  fun_induction ofExpr arithmetic expression with
  | case1 => cases found
  | case2 value right term ih => exact ih (passes _ given _ (by simp [Expr.children])) found
  | case3 left value notConst term ih =>
      exact ih (passes _ given _ (by simp [Expr.children])) found
  | case4 operand term ih => exact ih (passes _ given _ (by simp [Expr.children])) found
  | case5 =>
      cases found
      exact given

/-- A property that passes from an expression to its children passes to the bases of
its terms. -/
theorem base_flatten_of_children {holds : Expr α → Prop}
    (passes : ∀ parent, holds parent → ∀ child ∈ parent.children, holds child)
    (given : holds expression) {term : Term α}
    (member : term ∈ flatten arithmetic scale expression) :
    ∀ base ∈ term.base?, holds base := by
  fun_induction flatten arithmetic scale expression with
  | case1 scale left right ihLeft ihRight =>
      rcases List.mem_append.mp member with inLeft | inRight
      · exact ihLeft (passes _ given _ (by simp [Expr.children])) inLeft
      · exact ihRight (passes _ given _ (by simp [Expr.children])) inRight
  | case2 scale left right ihLeft ihRight =>
      rcases List.mem_append.mp member with inLeft | inRight
      · exact ihLeft (passes _ given _ (by simp [Expr.children])) inLeft
      · exact ihRight (passes _ given _ (by simp [Expr.children])) inRight
  | case3 scale operand ih => exact ih (passes _ given _ (by simp [Expr.children])) member
  | case4 scale expression _ _ _ coefficient found =>
      rw [List.mem_singleton.mp member]
      simp
  | case5 scale expression _ _ _ coefficient base found sum smaller ih =>
      exact ih (base_ofExpr_of_children arithmetic passes given found) member
  | case6 scale expression _ _ _ coefficient base found plain =>
      rw [List.mem_singleton.mp member]
      rintro _ ⟨⟩
      exact base_ofExpr_of_children arithmetic passes given found

end Flattening

section Merging

/-- The bases are pairwise different, each from the later ones. -/
def Distinct (terms : List (Term α)) : Prop :=
  terms.Pairwise fun first second =>
    sameBase arithmetic first.base? second.base? = false

theorem base_of_mem_insert {terms : List (Term α)} {term inserted : Term α}
    (member : inserted ∈ insert arithmetic terms term) :
    inserted.base? = term.base? ∨ ∃ other ∈ terms, inserted.base? = other.base? := by
  induction terms with
  | nil =>
      rw [insert, List.mem_singleton] at member
      exact .inl (congrArg Term.base? member)
  | cons first rest ih =>
      rw [insert] at member
      split at member
      · rcases List.mem_cons.mp member with rfl | inRest
        · exact .inr ⟨first, List.mem_cons_self, rfl⟩
        · exact .inr ⟨inserted, List.mem_cons_of_mem first inRest, rfl⟩
      · rcases List.mem_cons.mp member with rfl | inRest
        · exact .inr ⟨inserted, List.mem_cons_self, rfl⟩
        · refine (ih inRest).imp_right ?_
          rintro ⟨other, inOthers, same⟩
          exact ⟨other, List.mem_cons_of_mem first inOthers, same⟩

theorem Distinct.insert {terms : List (Term α)} (distinct : Distinct arithmetic terms)
    (term : Term α) : Distinct arithmetic (insert arithmetic terms term) := by
  induction terms with
  | nil => exact List.pairwise_singleton _ _
  | cons first rest ih =>
      obtain ⟨fromRest, restDistinct⟩ := List.pairwise_cons.mp distinct
      rw [Term.insert]
      split
      · exact List.pairwise_cons.mpr ⟨fromRest, restDistinct⟩
      next other =>
        refine List.pairwise_cons.mpr ⟨?_, ih restDistinct⟩
        intro inserted member
        rcases base_of_mem_insert arithmetic member with same | ⟨old, inRest, same⟩
        · rw [same]
          exact Bool.eq_false_iff.mpr other
        · rw [same]
          exact fromRest old inRest

theorem insert_of_different {terms : List (Term α)} {term : Term α}
    (different : ∀ first ∈ terms, sameBase arithmetic first.base? term.base? = false) :
    insert arithmetic terms term = terms ++ [term] := by
  induction terms with
  | nil => rfl
  | cons first rest ih =>
      obtain ⟨fromFirst, fromRest⟩ := List.forall_mem_cons.mp different
      rw [insert, if_neg (by simp [fromFirst]), ih fromRest, List.cons_append]

theorem foldl_insert_of_distinct {merged terms : List (Term α)}
    (distinct : Distinct arithmetic (merged ++ terms)) :
    terms.foldl (insert arithmetic) merged = merged ++ terms := by
  induction terms generalizing merged with
  | nil => rw [List.foldl_nil, List.append_nil]
  | cons term rest ih =>
      obtain ⟨-, -, across⟩ := List.pairwise_append.mp distinct
      have different := insert_of_different arithmetic fun first member =>
        across first member term List.mem_cons_self
      rw [List.foldl_cons, different, ih (by simpa using distinct), List.append_assoc,
        List.singleton_append]

/-- Merging terms with pairwise different bases and coefficients away from zero
changes nothing. -/
theorem merge_of_distinct {terms : List (Term α)} (distinct : Distinct arithmetic terms)
    (nonzero : ∀ term ∈ terms, arithmetic.apart term.coefficient arithmetic.zero = true) :
    merge arithmetic terms = terms := by
  have unmerged : terms.foldl (insert arithmetic) [] = terms :=
    foldl_insert_of_distinct arithmetic (by simpa using distinct)
  rw [merge, unmerged]
  exact List.filter_eq_self.mpr nonzero

theorem distinct_foldl_insert {merged : List (Term α)} (distinct : Distinct arithmetic merged)
    (terms : List (Term α)) :
    Distinct arithmetic (terms.foldl (insert arithmetic) merged) := by
  induction terms generalizing merged with
  | nil => exact distinct
  | cons term rest ih => exact ih (distinct.insert arithmetic term)

theorem distinct_merge (terms : List (Term α)) :
    Distinct arithmetic (merge arithmetic terms) :=
  (distinct_foldl_insert arithmetic List.Pairwise.nil terms).filter _

theorem base_of_mem_foldl_insert {merged terms : List (Term α)} {term : Term α}
    (member : term ∈ terms.foldl (insert arithmetic) merged) :
    ∃ other ∈ merged ++ terms, term.base? = other.base? := by
  induction terms generalizing merged with
  | nil => exact ⟨term, by simpa using member, rfl⟩
  | cons first rest ih =>
      obtain ⟨other, found, same⟩ := ih member
      rcases List.mem_append.mp found with inserted | inRest
      · rcases base_of_mem_insert arithmetic inserted with asFirst | ⟨old, inMerged, asOld⟩
        · exact ⟨first, by simp, same.trans asFirst⟩
        · exact ⟨old, by simp [inMerged], same.trans asOld⟩
      · exact ⟨other, by simp [inRest], same⟩

/-- Merging brings in no new bases. -/
theorem base_of_mem_merge {terms : List (Term α)} {term : Term α}
    (member : term ∈ merge arithmetic terms) : ∃ other ∈ terms, term.base? = other.base? := by
  simpa using base_of_mem_foldl_insert arithmetic (List.mem_filter.mp member).1

/-- The merged terms of an expression have atomic bases. -/
theorem isAtomic_of_mem_split {expression : Expr α} {term : Term α}
    (member : term ∈ split arithmetic expression) : ∀ base ∈ term.base?, isAtomic base = true := by
  obtain ⟨other, found, same⟩ := base_of_mem_merge arithmetic member
  rw [same]
  exact isAtomic_of_mem_flatten arithmetic _ found

end Merging

end Term

end ExprCalculus
