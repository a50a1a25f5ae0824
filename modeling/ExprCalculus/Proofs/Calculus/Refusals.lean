import ExprCalculus.Proofs.Calculus.Rules
import ExprCalculus.Proofs.Outcomes

/-!
# Expressions without a derivative

Differentiation is refused because of a part of the expression that mentions the variable
and whose root has no rule.  The integrand of an unknown integral over the variable is the
derivative of that integral, whatever it is made of, so a part inside such an integrand is
never looked at.  Every other part that mentions the variable is.
-/

namespace ExprCalculus

namespace Expr

variable {α : Type}

/-- A part of an expression that lies in no integrand of an unknown integral over the given
variable; the expression is such a part of itself. -/
inductive Exposed (name : String) (part : Expr α) : Expr α → Prop
  | here : Exposed name part part
  | inside {parent child : Expr α} (shows : ∀ integrand, parent ≠ .integral integrand name)
      (below : child ∈ parent.children) (found : Exposed name part child) :
      Exposed name part parent

/-- The refusal of an expression whose root has no differentiation rule. -/
inductive Refuses (arithmetic : Arithmetic α) : Expr α → Refusal α → Prop
  | operator {operator : UnaryOperator} {operand : Expr α}
      (listed : operator ∈ [.floor, .ceiling, .round, .sign, .factorial]) :
      Refuses arithmetic (.unary operator operand) (.operator (.unary operator operand))
  | modulo {left right : Expr α} :
      Refuses arithmetic (.binary .modulo left right) (.operator (.binary .modulo left right))
  | manyArguments {function : String} {first second : Expr α} {others : List (Expr α)} :
      Refuses arithmetic (.call function first (second :: others))
        (.manyArguments (others.length + 2) function)
  | function {function : String} {first : Expr α}
      (missing : Derivative.rule? arithmetic function = none) :
      Refuses arithmetic (.call function first []) (.function function)

/-- Why an expression has no derivative: a part that mentions the variable, is not the
integrand of an unknown integral over it, and has no rule at its root. -/
def HasObstacle (arithmetic : Arithmetic α) (name : String) (expression : Expr α)
    (refusal : Refusal α) : Prop :=
  ∃ part, Exposed name part expression ∧ part.mentions name = true ∧
    Refuses arithmetic part refusal

variable {arithmetic : Arithmetic α} {name : String} {refusal : Refusal α}

section Mentioning

theorem mentionsAny_of_mem {expressions : List (Expr α)} {member : Expr α}
    (found : member ∈ expressions) (mentioned : member.mentions name = true) :
    mentionsAny name expressions = true := by
  induction expressions with
  | nil => cases found
  | cons expression rest ih =>
      rw [mentionsAny, Bool.or_eq_true]
      rcases List.mem_cons.mp found with rfl | inRest
      · exact .inl mentioned
      · exact .inr (ih inRest)

theorem mentions_of_child {parent child : Expr α} (below : child ∈ parent.children)
    (mentioned : child.mentions name = true) : parent.mentions name = true := by
  cases parent with
  | const | var => cases below
  | unary operator operand =>
      rw [List.mem_singleton.mp below] at mentioned
      exact mentioned
  | binary operator left right =>
      rw [mentions, Bool.or_eq_true]
      rcases List.mem_cons.mp below with rfl | below
      · exact .inl mentioned
      · rw [List.mem_singleton.mp below] at mentioned
        exact .inr mentioned
  | call function first others => exact mentionsAny_of_mem below mentioned
  | integral integrand bound =>
      rw [List.mem_singleton.mp below] at mentioned
      rw [mentions, mentioned, Bool.true_or]

theorem mentions_of_exposed {part expression : Expr α} (exposed : Exposed name part expression)
    (mentioned : part.mentions name = true) : expression.mentions name = true := by
  induction exposed with
  | here => exact mentioned
  | inside _ below _ ih => exact mentions_of_child below ih

end Mentioning

section Obstacles

variable {parent child : Expr α}

/-- Only an unknown integral hides the expression below it. -/
theorem shows_of_kind (notIntegral : parent.kind ≠ .integral) (integrand : Expr α) :
    parent ≠ .integral integrand name := by
  rintro rfl
  exact notIntegral rfl

theorem HasObstacle.here (mentioned : parent.mentions name = true)
    (refuses : Refuses arithmetic parent refusal) :
    HasObstacle arithmetic name parent refusal :=
  ⟨parent, .here, mentioned, refuses⟩

theorem HasObstacle.inside (obstacle : HasObstacle arithmetic name child refusal)
    (below : child ∈ parent.children)
    (shows : ∀ integrand, parent ≠ .integral integrand name) :
    HasObstacle arithmetic name parent refusal := by
  obtain ⟨part, exposed, mentioned, refuses⟩ := obstacle
  exact ⟨part, .inside shows below exposed, mentioned, refuses⟩

theorem HasObstacle.inLeft {left : Expr α} (obstacle : HasObstacle arithmetic name left refusal)
    (operator : BinaryOperator) (right : Expr α) :
    HasObstacle arithmetic name (.binary operator left right) refusal :=
  obstacle.inside List.mem_cons_self (shows_of_kind Kind.noConfusion)

theorem HasObstacle.inRight {right : Expr α} (obstacle : HasObstacle arithmetic name right refusal)
    (operator : BinaryOperator) (left : Expr α) :
    HasObstacle arithmetic name (.binary operator left right) refusal :=
  obstacle.inside (List.mem_cons_of_mem _ List.mem_cons_self) (shows_of_kind Kind.noConfusion)

end Obstacles

section Refused

/-- Two derivatives that are combined are refused if one of them is. -/
theorem refused_of_combined {left right : Expr α} {combine : Expr α → Expr α → Expr α}
    (failed : (do
      let first ← left.derivative arithmetic name
      let second ← right.derivative arithmetic name
      return combine first second) = .error refusal) :
    left.derivative arithmetic name = .error refusal ∨
      right.derivative arithmetic name = .error refusal := by
  rcases except_bind_eq_error.mp failed with failed | ⟨first, -, failed⟩
  · exact .inl failed
  rcases except_bind_eq_error.mp failed with failed | ⟨second, -, failed⟩
  · exact .inr failed
  · cases failed

/-- The rule of an operator on one operand is missing for five operators only. -/
theorem refuses_of_unary {operator : UnaryOperator} {operand slope : Expr α}
    (failed : Derivative.unary arithmetic operator operand slope = .error refusal) :
    Refuses arithmetic (.unary operator operand) refusal := by
  cases operator <;> cases failed
  all_goals exact .operator (by decide)

theorem refused_binary {operator : BinaryOperator} {left right : Expr α}
    (failed : (binary operator left right).derivative arithmetic name = .error refusal) :
    left.derivative arithmetic name = .error refusal ∨
      right.derivative arithmetic name = .error refusal ∨
      (left.mentions name || right.mentions name) = true ∧
        Refuses arithmetic (.binary operator left right) refusal := by
  unfold derivative at failed
  split at failed
  case isFalse => cases failed
  case isTrue mentioned =>
    cases operator with
    | add | subtract | multiply | divide | logBase =>
        exact (refused_of_combined failed).imp_right .inl
    | modulo =>
        cases failed
        exact .inr (.inr ⟨mentioned, .modulo⟩)
    | power =>
        dsimp only at failed
        split at failed
        · exact (refused_of_combined failed).elim (.inr ∘ .inl) .inl
        · rcases except_bind_eq_error.mp failed with failed | ⟨first, -, failed⟩
          · exact .inl failed
          · cases failed

/-- A refused expression has an obstacle, and the refusal says which. -/
theorem hasObstacle_of_refused {expression : Expr α}
    (failed : expression.derivative arithmetic name = .error refusal) :
    HasObstacle arithmetic name expression refusal := by
  match expression with
  | .const value => cases failed
  | .var other => cases failed
  | .unary operator operand =>
      rw [derivative] at failed
      split at failed
      case isFalse => cases failed
      case isTrue mentioned =>
        rcases except_bind_eq_error.mp failed with failed | ⟨slope, -, failed⟩
        · exact (hasObstacle_of_refused failed).inside List.mem_cons_self
            (shows_of_kind Kind.noConfusion)
        · exact .here mentioned (refuses_of_unary failed)
  | .binary operator left right =>
      rcases refused_binary failed with failed | failed | ⟨mentioned, refuses⟩
      · exact (hasObstacle_of_refused failed).inLeft operator right
      · exact (hasObstacle_of_refused failed).inRight operator left
      · exact .here mentioned refuses
  | .call function first [] =>
      rw [derivative] at failed
      split at failed
      case isFalse => cases failed
      case isTrue mentioned =>
        split at failed
        next rule isRule =>
          rcases except_bind_eq_error.mp failed with failed | ⟨slope, -, failed⟩
          · exact (hasObstacle_of_refused failed).inside List.mem_cons_self
              (shows_of_kind Kind.noConfusion)
          · cases failed
        next missing =>
          cases failed
          exact .here mentioned (.function missing)
  | .call function first (second :: others) =>
      rw [derivative] at failed
      split at failed
      case isFalse => cases failed
      case isTrue mentioned =>
        cases failed
        exact .here mentioned .manyArguments
  | .integral integrand bound =>
      rw [derivative] at failed
      split at failed
      · cases failed
      next other =>
        split at failed
        · rcases except_bind_eq_error.mp failed with failed | ⟨slope, -, failed⟩
          · refine (hasObstacle_of_refused failed).inside List.mem_cons_self fun _ same => ?_
            cases same
            exact other rfl
          · cases failed
        · cases failed

end Refused

section Derived

variable {result : Expr α}

/-- An operator between two operands is differentiated only if both operands that mention
the variable are. -/
theorem derived_binary {operator : BinaryOperator} {left right : Expr α}
    (derived : (binary operator left right).derivative arithmetic name = .ok result) :
    (left.mentions name = true → ∃ slope, left.derivative arithmetic name = .ok slope) ∧
      (right.mentions name = true → ∃ slope, right.derivative arithmetic name = .ok slope) := by
  have combined {first second : Expr α} {combine : Expr α → Expr α → Expr α}
      (both : (do
        let firstSlope ← first.derivative arithmetic name
        let secondSlope ← second.derivative arithmetic name
        return combine firstSlope secondSlope) = .ok result) :
      (∃ slope, first.derivative arithmetic name = .ok slope) ∧
        ∃ slope, second.derivative arithmetic name = .ok slope := by
    obtain ⟨firstSlope, isFirst, rest⟩ := except_bind_eq_ok.mp both
    obtain ⟨secondSlope, isSecond, -⟩ := except_bind_eq_ok.mp rest
    exact ⟨⟨firstSlope, isFirst⟩, secondSlope, isSecond⟩
  unfold derivative at derived
  split at derived
  case isFalse free =>
    rw [Bool.or_eq_true, not_or] at free
    exact ⟨fun mentioned => absurd mentioned free.1, fun mentioned => absurd mentioned free.2⟩
  case isTrue =>
    cases operator with
    | add | subtract | multiply | divide | logBase =>
        obtain ⟨leftDerived, rightDerived⟩ := combined derived
        exact ⟨fun _ => leftDerived, fun _ => rightDerived⟩
    | modulo => cases derived
    | power =>
        dsimp only at derived
        split at derived
        · obtain ⟨rightDerived, leftDerived⟩ := combined derived
          exact ⟨fun _ => leftDerived, fun _ => rightDerived⟩
        next free =>
          obtain ⟨slope, isSlope, -⟩ := except_bind_eq_ok.mp derived
          exact ⟨fun _ => ⟨slope, isSlope⟩, fun mentioned => absurd mentioned free⟩

/-- Differentiating an expression differentiates every expression directly below it that
mentions the variable, apart from the integrand of an unknown integral over it. -/
theorem derived_child {parent child : Expr α}
    (derived : parent.derivative arithmetic name = .ok result)
    (shows : ∀ integrand, parent ≠ .integral integrand name) (below : child ∈ parent.children)
    (mentioned : child.mentions name = true) :
    ∃ slope, child.derivative arithmetic name = .ok slope := by
  have parentMentions := mentions_of_child below mentioned
  cases parent with
  | const | var => cases below
  | unary operator operand =>
      rw [List.mem_singleton.mp below]
      rw [mentions] at parentMentions
      rw [derivative, if_pos parentMentions] at derived
      obtain ⟨slope, isSlope, -⟩ := except_bind_eq_ok.mp derived
      exact ⟨slope, isSlope⟩
  | binary operator left right =>
      obtain ⟨leftDerived, rightDerived⟩ := derived_binary derived
      rcases List.mem_cons.mp below with rfl | below
      · exact leftDerived mentioned
      · rw [List.mem_singleton.mp below] at mentioned ⊢
        exact rightDerived mentioned
  | call function first others =>
      rw [mentions] at parentMentions
      unfold derivative at derived
      rw [if_pos parentMentions] at derived
      split at derived
      next =>
        rw [List.mem_singleton.mp below]
        split at derived
        next rule isRule =>
          obtain ⟨slope, isSlope, -⟩ := except_bind_eq_ok.mp derived
          exact ⟨slope, isSlope⟩
        next => cases derived
      next => cases derived
  | integral integrand bound =>
      rw [List.mem_singleton.mp below] at mentioned ⊢
      have other : bound ≠ name := fun same => shows integrand (by rw [same])
      rw [derivative, if_neg other, if_pos mentioned] at derived
      obtain ⟨slope, isSlope, -⟩ := except_bind_eq_ok.mp derived
      exact ⟨slope, isSlope⟩

/-- An expression whose root has no rule is not differentiated. -/
theorem not_derived_of_refuses {part : Expr α} (refuses : Refuses arithmetic part refusal)
    (mentioned : part.mentions name = true) :
    part.derivative arithmetic name ≠ .ok result := by
  intro derived
  cases refuses with
  | @operator operator operand listed =>
      rw [derivative, if_pos (show operand.mentions name = true from mentioned)] at derived
      obtain ⟨slope, -, made⟩ := except_bind_eq_ok.mp derived
      simp only [List.mem_cons, List.not_mem_nil, or_false] at listed
      rcases listed with rfl | rfl | rfl | rfl | rfl <;> cases made
  | modulo =>
      rw [mentions] at mentioned
      rw [derivative, if_pos mentioned] at derived
      cases derived
  | manyArguments =>
      rw [mentions] at mentioned
      rw [derivative, if_pos mentioned] at derived
      cases derived
  | function missing =>
      rw [mentions] at mentioned
      rw [derivative, if_pos mentioned] at derived
      simp only [missing] at derived
      cases derived

theorem not_derived_of_hasObstacle {expression : Expr α}
    (obstacle : HasObstacle arithmetic name expression refusal) :
    expression.derivative arithmetic name ≠ .ok result := by
  obtain ⟨part, exposed, mentioned, refuses⟩ := obstacle
  induction exposed generalizing result with
  | here => exact not_derived_of_refuses refuses mentioned
  | inside shows below found ih =>
      intro derived
      obtain ⟨slope, isSlope⟩ :=
        derived_child derived shows below (mentions_of_exposed found mentioned)
      exact ih isSlope

end Derived

end Expr

open ExprCalculus.Expr

/-- Differentiation is refused exactly if some part of the expression mentions the variable,
lies in no integrand of an unknown integral over the variable, and has no rule at its root:
a rounding, a sign, a factorial, a remainder, a call with several arguments, or a call of a
function without a rule.  The refusal names such a part, and otherwise there is a
derivative. -/
theorem derivative_refused_iff_obstacle (arithmetic : Arithmetic α) (name : String)
    (expression : Expr α) :
    ((∃ refusal, expression.derivative arithmetic name = .error refusal) ↔
      ∃ part refusal, Exposed name part expression ∧ part.mentions name = true ∧
        Refuses arithmetic part refusal) ∧
    ((∃ result, expression.derivative arithmetic name = .ok result) ∨
      ∃ part refusal, expression.derivative arithmetic name = .error refusal ∧
        Exposed name part expression ∧ part.mentions name = true ∧
        Refuses arithmetic part refusal) := by
  cases derived : expression.derivative arithmetic name with
  | ok result =>
      refine ⟨⟨?_, ?_⟩, .inl ⟨result, rfl⟩⟩
      · rintro ⟨refusal, ⟨⟩⟩
      · rintro ⟨part, refusal, obstacle⟩
        exact absurd derived (not_derived_of_hasObstacle ⟨part, obstacle⟩)
  | error refusal =>
      obtain ⟨part, obstacle⟩ := hasObstacle_of_refused derived
      exact ⟨⟨fun _ => ⟨part, refusal, obstacle⟩, fun _ => ⟨refusal, rfl⟩⟩,
        .inr ⟨part, refusal, rfl, obstacle⟩⟩

end ExprCalculus
