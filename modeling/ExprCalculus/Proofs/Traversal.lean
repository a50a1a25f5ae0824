import ExprCalculus.Proofs.Calculus.Markers
import Mathlib.Data.List.Perm.Basic
import Mathlib.Data.Set.Card

/-!
# The two walks over an expression

The nodes of an expression are listed root first and then from left to right, or by their
distances from the root.  The walk with a stack gives the first list and the walk with a
queue the second one, so the two visit the same nodes, as many as the expression has, and
the search that ends early goes over the same nodes.
-/

namespace ExprCalculus

namespace Expr

variable {α : Type}

mutual

/-- The nodes of an expression, the root first and then those below it from left to right. -/
def parts : Expr α → List (Expr α)
  | const value => [const value]
  | var name => [var name]
  | unary operator operand => unary operator operand :: operand.parts
  | binary operator left right => binary operator left right :: (left.parts ++ right.parts)
  | call name first others => call name first others :: (first.parts ++ partsAll others)
  | integral integrand name => integral integrand name :: integrand.parts

def partsAll : List (Expr α) → List (Expr α)
  | [] => []
  | expression :: rest => expression.parts ++ partsAll rest

end

/-- The nodes of an expression at a distance from the root, from left to right. -/
def level : Nat → Expr α → List (Expr α)
  | 0, expression => [expression]
  | distance + 1, expression => expression.children.flatMap (level distance)

section Nodes

theorem size_eq (expression : Expr α) : expression.size = sizeAll expression.children + 1 := by
  cases expression <;> simp [size, sizeAll, children]

theorem depth_eq (expression : Expr α) : expression.depth = depthAll expression.children + 1 := by
  cases expression <;> simp [depth, depthAll, children]

theorem parts_eq (expression : Expr α) :
    expression.parts = expression :: partsAll expression.children := by
  cases expression <;> simp [parts, partsAll, children]

theorem partsAll_append (first second : List (Expr α)) :
    partsAll (first ++ second) = partsAll first ++ partsAll second := by
  induction first with
  | nil => rfl
  | cons expression rest ih => rw [List.cons_append, partsAll, partsAll, ih, List.append_assoc]

/-- The first node of a stack comes before the nodes below it, and these before the rest. -/
theorem partsAll_cons (expression : Expr α) (stack : List (Expr α)) :
    partsAll (expression :: stack) = expression :: partsAll (expression.children ++ stack) := by
  rw [partsAll, parts_eq, partsAll_append, List.cons_append]

theorem depthAll_le_iff {expressions : List (Expr α)} {bound : ℕ} :
    depthAll expressions ≤ bound ↔ ∀ expression ∈ expressions, expression.depth ≤ bound := by
  induction expressions with
  | nil => simp [depthAll]
  | cons expression rest ih => rw [depthAll, max_le_iff, ih, List.forall_mem_cons]

theorem lt_depthAll_iff {expressions : List (Expr α)} {distance : ℕ} :
    distance < depthAll expressions ↔ ∃ expression ∈ expressions, distance < expression.depth := by
  rw [← not_le, depthAll_le_iff]
  push Not
  rfl

end Nodes

section Stack

theorem preorder_eq (stack : List (Expr α)) : preorder stack = partsAll stack := by
  fun_induction preorder stack with
  | case1 => rfl
  | case2 expression stack ih => rw [partsAll_cons, ih]

theorem length_partsAll (stack : List (Expr α)) : (partsAll stack).length = sizeAll stack := by
  fun_induction preorder stack with
  | case1 => rfl
  | case2 expression stack ih =>
      rw [partsAll_cons, List.length_cons, ih, sizeAll_append, sizeAll, size_eq]
      omega

/-- A property holds of a node of some expressions if it holds somewhere in one of them. -/
theorem exists_mem_partsAll_iff {holds : Expr α → Prop} {stack : List (Expr α)} :
    (∃ part ∈ partsAll stack, holds part) ↔
      ∃ expression ∈ stack, Somewhere holds expression := by
  fun_induction preorder stack with
  | case1 => simp [partsAll]
  | case2 expression stack ih =>
      rw [partsAll_cons, List.exists_mem_cons_iff, ih, List.exists_mem_cons_iff, somewhere_iff,
        or_assoc]
      simp only [List.mem_append, or_and_right, exists_or]

end Stack

section Queue

/-- The nodes in front of a queue are visited first, and those below them after the rest of
the queue. -/
theorem levelOrder_append (front back : List (Expr α)) :
    levelOrder (front ++ back) = front ++ levelOrder (back ++ front.flatMap children) := by
  induction front generalizing back with
  | nil => simp
  | cons expression front ih =>
      rw [List.cons_append, levelOrder, List.append_assoc, ih, List.flatMap_cons,
        List.append_assoc, List.cons_append]

theorem level_ne_nil_iff {distance : ℕ} {expression : Expr α} :
    level distance expression ≠ [] ↔ distance < expression.depth := by
  induction distance generalizing expression with
  | zero =>
      rw [level, depth_eq]
      simp
  | succ distance ih =>
      rw [level, depth_eq, Nat.succ_lt_succ_iff, lt_depthAll_iff, ne_eq, List.flatMap_eq_nil_iff]
      push Not
      simp only [ih]

/-- A queue that holds one level is visited level by level. -/
theorem levelOrder_eq {bound : ℕ} {queue : List (Expr α)} (deep : depthAll queue ≤ bound) :
    levelOrder queue =
      (List.range bound).flatMap fun distance => queue.flatMap (level distance) := by
  induction bound generalizing queue with
  | zero =>
      cases queue with
      | nil => simp [levelOrder]
      | cons expression rest =>
          rw [depthAll, depth_eq] at deep
          omega
  | succ bound ih =>
      have below : depthAll (queue.flatMap children) ≤ bound := by
        rw [depthAll_le_iff] at deep ⊢
        intro child member
        obtain ⟨parent, inQueue, isChild⟩ := List.mem_flatMap.mp member
        have parentDeep := deep parent inQueue
        rw [depth_eq] at parentDeep
        exact depthAll_le_iff.mp (Nat.le_of_succ_le_succ parentDeep) child isChild
      have next := levelOrder_append queue []
      rw [List.append_nil, List.nil_append, ih below] at next
      have root : queue.flatMap (level 0) = queue := List.flatMap_singleton' queue
      rw [next, List.range_succ_eq_map, List.flatMap_cons, root, List.flatMap_map]
      simp only [List.flatMap_assoc, level]

/-- The queue and the stack visit the same nodes. -/
theorem levelOrder_perm (queue : List (Expr α)) : (levelOrder queue).Perm (partsAll queue) := by
  fun_induction levelOrder queue with
  | case1 => exact .refl _
  | case2 expression queue ih =>
      rw [partsAll_cons]
      rw [partsAll_append] at ih ⊢
      exact (ih.trans List.perm_append_comm).cons expression

end Queue

section Walks

variable {expression : Expr α}

theorem subexpressions_perm :
    (expression.subexpressions .breadthFirst).Perm expression.parts := by
  have walked := levelOrder_perm [expression]
  rwa [partsAll, partsAll, List.append_nil] at walked

/-- Depth first, the nodes of an expression are listed root first and then from left to right;
breadth first, level after level.  The two lists hold the same nodes, as many as the size of
the expression says, and the levels that are not empty are as many as its depth says.  The
search for a node with a property finds one exactly if the list of such nodes is not empty. -/
theorem traversals_agree (expression : Expr α) :
    expression.subexpressions .depthFirst = expression.parts ∧
      expression.subexpressions .breadthFirst =
        (List.range expression.depth).flatMap (level · expression) ∧
      (expression.subexpressions .breadthFirst).Perm (expression.subexpressions .depthFirst) ∧
      (expression.subexpressions .breadthFirst).length = expression.size ∧
      (expression.subexpressions .depthFirst).length = expression.size ∧
      (∀ distance, level distance expression ≠ [] ↔ distance < expression.depth) ∧
      {distance | level distance expression ≠ []}.ncard = expression.depth ∧
      ∀ property : Expr α → Bool,
        expression.contains property = true ↔ expression.select property ≠ [] := by
  have single : partsAll [expression] = expression.parts := by
    rw [partsAll, partsAll, List.append_nil]
  have depthFirst : expression.subexpressions .depthFirst = expression.parts :=
    (preorder_eq [expression]).trans single
  have perm := @subexpressions_perm α expression
  have length : expression.parts.length = expression.size := by
    rw [← single, length_partsAll, sizeAll, sizeAll, Nat.add_zero]
  have deep : depthAll [expression] ≤ expression.depth := by
    rw [depthAll, depthAll, Nat.max_zero]
  refine ⟨depthFirst, ?_, depthFirst ▸ perm, perm.length_eq.trans length,
    depthFirst ▸ length, fun _ => level_ne_nil_iff, ?_, fun property => ?_⟩
  · refine (levelOrder_eq deep).trans ?_
    simp only [List.flatMap_cons, List.flatMap_nil, List.append_nil]
  · have levels : {distance | level distance expression ≠ []} =
        (Finset.range expression.depth : Set ℕ) := by
      ext distance
      simp [level_ne_nil_iff]
    rw [levels, Set.ncard_coe_finset, Finset.card_range]
  · have inParts := @exists_mem_partsAll_iff α (property · = true) [expression]
    rw [single, List.exists_mem_cons_iff] at inParts
    rw [contains_iff, select, ne_eq, List.filter_eq_nil_iff]
    push Not
    simp only [perm.mem_iff, inParts]
    simp

end Walks

end Expr

end ExprCalculus
