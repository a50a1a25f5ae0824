import ExprCalculus.Expr.Digest
import ExprCalculus.Evaluation.Doubles
import ExprCalculus.Proofs.Doubles.Difference
import Mathlib.Data.List.Forall2

/-!
# Likeness of expressions

Two expressions are alike if they have one shape and their constants agree place by place.
Comparing expressions decides this relation.  Digests depend on the shape only, so comparing
them first, or recognising one object, never changes the answer; and since constants agree
with themselves and in both directions, so do expressions.
-/

namespace ExprCalculus

namespace Expr

variable {α δ : Type} {same : α → α → Bool}

section Shapes

/-- The expression without the values of its constants: the kinds, operators, names and
numbers of arguments in it. -/
def shape (expression : Expr α) : Expr Unit :=
  expression.map fun _ => ()

def shapes (expressions : List (Expr α)) : List (Expr Unit) :=
  mapAll (fun _ => ()) expressions

mutual

/-- The constants of an expression from left to right. -/
def literals : Expr α → List α
  | const value => [value]
  | var _ => []
  | unary _ operand => operand.literals
  | binary _ left right => left.literals ++ right.literals
  | call _ first others => first.literals ++ literalsAll others
  | integral integrand _ => integrand.literals

def literalsAll : List (Expr α) → List α
  | [] => []
  | expression :: rest => expression.literals ++ literalsAll rest

end

mutual

theorem literals_map {β : Type} (image : α → β) (expression : Expr α) :
    (expression.map image).literals = expression.literals.map image := by
  cases expression with
  | const _ | var _ => rfl
  | unary _ operand => exact literals_map image operand
  | binary _ left right =>
      rw [map, literals, literals, literals_map image left, literals_map image right,
        List.map_append]
  | call _ first others =>
      rw [map, literals, literals, literals_map image first, literalsAll_mapAll image others,
        List.map_append]
  | integral integrand _ => exact literals_map image integrand

theorem literalsAll_mapAll {β : Type} (image : α → β) (expressions : List (Expr α)) :
    literalsAll (mapAll image expressions) = (literalsAll expressions).map image := by
  match expressions with
  | [] => rfl
  | expression :: rest =>
      rw [mapAll, literalsAll, literalsAll, literals_map image expression,
        literalsAll_mapAll image rest, List.map_append]

end

/-- Expressions of one shape have equally many constants. -/
theorem length_literals_of_shape {first second : Expr α} (sameShape : first.shape = second.shape) :
    first.literals.length = second.literals.length := by
  have lengths := congrArg (·.literals.length) sameShape
  simpa only [shape, literals_map, List.length_map] using lengths

end Shapes

section Alike

/-- Pairs are related throughout two lists put together of equally long parts exactly if they
are throughout both parts. -/
theorem forall₂_append_iff {β γ : Type} {related : β → γ → Prop} {first others : List β}
    {second further : List γ} (sameLength : first.length = second.length) :
    List.Forall₂ related (first ++ others) (second ++ further) ↔
      List.Forall₂ related first second ∧ List.Forall₂ related others further := by
  induction first generalizing second with
  | nil =>
      rw [List.eq_nil_of_length_eq_zero sameLength.symm]
      simp
  | cons value rest ih =>
      obtain ⟨counterpart, remaining, rfl⟩ := List.exists_cons_of_length_eq_add_one sameLength.symm
      rw [List.cons_append, List.cons_append, List.forall₂_cons, List.forall₂_cons,
        ih (Nat.succ.inj sameLength), and_assoc]

/-- Two expressions have one shape, and their constants agree place by place. -/
structure Alike (agree : α → α → Prop) (first second : Expr α) : Prop where
  shape : first.shape = second.shape
  literals : List.Forall₂ agree first.literals second.literals

/-- Two lists of expressions are alike place by place. -/
structure AlikeAll (agree : α → α → Prop) (firsts seconds : List (Expr α)) : Prop where
  shapes : shapes firsts = shapes seconds
  literals : List.Forall₂ agree (literalsAll firsts) (literalsAll seconds)

section Nodes

variable {agree : α → α → Prop} {first second firstLeft firstRight secondLeft secondRight : Expr α}
  {firsts seconds : List (Expr α)}

theorem alike_const {value other : α} :
    Alike agree (const value) (const other) ↔ agree value other := by
  refine ⟨fun alike => ?_, fun agrees => ⟨rfl, .cons agrees .nil⟩⟩
  exact (List.forall₂_cons.mp alike.literals).1

theorem alike_var {name other : String} :
    Alike agree (var name) (var other) ↔ name = other := by
  refine ⟨fun alike => Expr.var.inj alike.shape, ?_⟩
  rintro rfl
  exact ⟨rfl, .nil⟩

theorem alike_unary {operator other : UnaryOperator} :
    Alike agree (unary operator first) (unary other second) ↔
      operator = other ∧ Alike agree first second := by
  constructor
  · rintro ⟨shape, literals⟩
    obtain ⟨sameOperator, operand⟩ := Expr.unary.inj shape
    exact ⟨sameOperator, operand, literals⟩
  · rintro ⟨rfl, shape, literals⟩
    exact ⟨congrArg (unary operator) shape, literals⟩

theorem alike_binary {operator other : BinaryOperator} :
    Alike agree (binary operator firstLeft firstRight) (binary other secondLeft secondRight) ↔
      operator = other ∧ Alike agree firstLeft secondLeft ∧
        Alike agree firstRight secondRight := by
  constructor
  · rintro ⟨shape, literals⟩
    obtain ⟨sameOperator, left, right⟩ := Expr.binary.inj shape
    obtain ⟨inLeft, inRight⟩ := (forall₂_append_iff (length_literals_of_shape left)).mp literals
    exact ⟨sameOperator, ⟨left, inLeft⟩, right, inRight⟩
  · rintro ⟨rfl, ⟨left, inLeft⟩, right, inRight⟩
    exact ⟨congrArg₂ (binary operator) left right,
      (forall₂_append_iff (length_literals_of_shape left)).mpr ⟨inLeft, inRight⟩⟩

theorem alike_call {name other : String} :
    Alike agree (call name first firsts) (call other second seconds) ↔
      name = other ∧ Alike agree first second ∧ AlikeAll agree firsts seconds := by
  constructor
  · rintro ⟨shape, literals⟩
    obtain ⟨sameName, argument, others⟩ := Expr.call.inj shape
    obtain ⟨inFirst, inOthers⟩ :=
      (forall₂_append_iff (length_literals_of_shape argument)).mp literals
    exact ⟨sameName, ⟨argument, inFirst⟩, others, inOthers⟩
  · rintro ⟨rfl, ⟨argument, inFirst⟩, others, inOthers⟩
    exact ⟨congrArg₂ (call name) argument others,
      (forall₂_append_iff (length_literals_of_shape argument)).mpr ⟨inFirst, inOthers⟩⟩

theorem alike_integral {name other : String} :
    Alike agree (integral first name) (integral second other) ↔
      name = other ∧ Alike agree first second := by
  constructor
  · rintro ⟨shape, literals⟩
    obtain ⟨integrand, sameName⟩ := Expr.integral.inj shape
    exact ⟨sameName, integrand, literals⟩
  · rintro ⟨rfl, shape, literals⟩
    exact ⟨congrArg (integral · name) shape, literals⟩

theorem alikeAll_cons :
    AlikeAll agree (first :: firsts) (second :: seconds) ↔
      Alike agree first second ∧ AlikeAll agree firsts seconds := by
  constructor
  · rintro ⟨shapes, literals⟩
    obtain ⟨head, rest⟩ := List.cons.inj shapes
    obtain ⟨inHead, inRest⟩ := (forall₂_append_iff (length_literals_of_shape head)).mp literals
    exact ⟨⟨head, inHead⟩, rest, inRest⟩
  · rintro ⟨⟨head, inHead⟩, rest, inRest⟩
    exact ⟨congrArg₂ List.cons head rest,
      (forall₂_append_iff (length_literals_of_shape head)).mpr ⟨inHead, inRest⟩⟩

theorem Alike.kind_eq (alike : Alike agree first second) : first.kind = second.kind := by
  have kinds := congrArg kind alike.shape
  cases first <;> cases second <;> first | rfl | cases kinds

end Nodes

end Alike

end Expr

end ExprCalculus
