import ExprCalculus.Proofs.Grammar.Derivation

/-!
# Outlines of expressions

The outline of an expression is what the grammar says about its tokens alone: no tree, and no
number of arguments that a reserved name requires.  Whether tokens can go on to form an outline
is decided from left to right, by what may come next and by the parentheses that are open.
-/

namespace ExprCalculus

namespace Grammar

mutual

/-- The tokens as a whole have the outline of a phrase. -/
inductive Outlines : Phrase → List Token → Prop where
  | product {tokens} : Outlines .multiplicative tokens → Outlines .additive tokens
  | sum {left token right operator} :
      Outlines .additive left → IsSign token operator → operator.precedence = .additive →
      Outlines .multiplicative right → Outlines .additive (left ++ token :: right)
  | factor {tokens} : Outlines .unary tokens → Outlines .multiplicative tokens
  | multiple {left token right operator} :
      Outlines .multiplicative left → IsSign token operator →
      operator.precedence = .multiplicative → Outlines .unary right →
      Outlines .multiplicative (left ++ token :: right)
  | negation {token operand} :
      IsSign token .subtract → Outlines .unary operand → Outlines .unary (token :: operand)
  | affirmation {token operand} :
      IsSign token .add → Outlines .unary operand → Outlines .unary (token :: operand)
  | unsigned {tokens} : Outlines .power tokens → Outlines .unary tokens
  | base {tokens} : Outlines .postfixed tokens → Outlines .power tokens
  | raised {base token exponent} :
      Outlines .postfixed base → IsSign token .power → Outlines .unary exponent →
      Outlines .power (base ++ token :: exponent)
  | unmarked {tokens} : Outlines .primary tokens → Outlines .postfixed tokens
  | factorial {operand token} :
      Outlines .postfixed operand → token.kind = .factorial →
      Outlines .postfixed (operand ++ [token])
  | number {token} : token.kind = .number → Outlines .primary [token]
  | constant {token} : token.kind = .constant → Outlines .primary [token]
  | variableName {token} : token.kind = .identifier → Outlines .primary [token]
  | call {token opening arguments} :
      token.kind = .function ∨ token.kind = .identifier → opening.kind = .leftParenthesis →
      OutlinesArguments arguments → Outlines .primary (token :: opening :: arguments)
  | parentheses {opening inner closing} :
      opening.kind = .leftParenthesis → Outlines .additive inner →
      closing.kind = .rightParenthesis → Outlines .primary (opening :: (inner ++ [closing]))

/-- The tokens as a whole are sums between commas and a closing parenthesis after them. -/
inductive OutlinesArguments : List Token → Prop where
  | last {argument closing} :
      Outlines .additive argument → closing.kind = .rightParenthesis →
      OutlinesArguments (argument ++ [closing])
  | more {argument comma others} :
      Outlines .additive argument → comma.kind = .comma → OutlinesArguments others →
      OutlinesArguments (argument ++ comma :: others)

end

/-- The tokens before the first end token, or all of them without one. -/
def beforeEnd (tokens : List Token) : List Token :=
  tokens.takeWhile (·.kind ≠ .finish)

/-- The tokens before the end have the outline of a sum and keep operators apart. -/
structure Accepts (tokens : List Token) : Prop where
  outlines : Outlines .additive (beforeEnd tokens)
  apart : (beforeEnd tokens).IsChain MayFollow

/-- What may come next: an operand, maybe directly after an operator; the opening parenthesis
of a call; or anything that goes on after an operand, maybe directly after a name. -/
inductive Expectation where
  | operand (afterOperator : Bool)
  | opening
  | operator (afterName : Bool)
deriving DecidableEq

/-- What an open parenthesis encloses. -/
inductive Enclosure where
  | parentheses
  | call
deriving DecidableEq

/-- What may come next, and the open parentheses, innermost first. -/
structure Stage where
  expectation : Expectation
  enclosures : List Enclosure
deriving DecidableEq

namespace Stage

def signs : List String :=
  ["+", "-", "*", "/", "^", "%"]

def afterOperand? (afterOperator : Bool) (enclosures : List Enclosure) (token : Token) :
    Option Stage :=
  match token.kind with
  | .number | .constant => some ⟨.operator false, enclosures⟩
  | .identifier => some ⟨.operator true, enclosures⟩
  | .function => some ⟨.opening, enclosures⟩
  | .leftParenthesis => some ⟨.operand false, .parentheses :: enclosures⟩
  | .operator =>
      if token.text = "-" || (!afterOperator && token.text = "+") then
        some ⟨.operand true, enclosures⟩
      else
        none
  | _ => none

def afterClosing? : List Enclosure → Option Stage
  | [] => none
  | _ :: enclosures => some ⟨.operator false, enclosures⟩

def afterComma? : List Enclosure → Option Stage
  | .call :: enclosures => some ⟨.operand false, .call :: enclosures⟩
  | _ => none

def afterOperator? (afterName : Bool) (enclosures : List Enclosure) (token : Token) :
    Option Stage :=
  match token.kind with
  | .operator => if signs.contains token.text then some ⟨.operand true, enclosures⟩ else none
  | .factorial => some ⟨.operator false, enclosures⟩
  | .leftParenthesis => if afterName then some ⟨.operand false, .call :: enclosures⟩ else none
  | .rightParenthesis => afterClosing? enclosures
  | .comma => afterComma? enclosures
  | _ => none

/-- The stage after a token, if the token may come next. -/
def next? (stage : Stage) (token : Token) : Option Stage :=
  match stage.expectation with
  | .operand afterOperator => afterOperand? afterOperator stage.enclosures token
  | .opening =>
      if token.kind = .leftParenthesis then
        some ⟨.operand false, .call :: stage.enclosures⟩
      else
        none
  | .operator afterName => afterOperator? afterName stage.enclosures token

def isComplete (stage : Stage) : Bool :=
  match stage.expectation, stage.enclosures with
  | .operator _, [] => true
  | _, _ => false

/-- Some tokens lead from a stage to another one. -/
def Leads (stage : Stage) (tokens : List Token) (reached : Stage) : Prop :=
  tokens.foldlM next? stage = some reached

/-- A token cannot come next, and the tokens cannot end here if it is an end token. -/
structure Blocks (stage : Stage) (token : Token) : Prop where
  stuck : stage.next? token = none
  incomplete : token.kind = .finish → stage.isComplete = false

section Leads

variable {stage middle reached : Stage} {token : Token} {first second : List Token}

theorem leads_nil : stage.Leads [] stage :=
  rfl

theorem leads_cons :
    stage.Leads (token :: first) reached ↔
      ∃ middle, stage.next? token = some middle ∧ middle.Leads first reached := by
  rw [Leads, List.foldlM_cons]
  exact Option.bind_eq_some_iff

theorem leads_append :
    stage.Leads (first ++ second) reached ↔
      ∃ middle, stage.Leads first middle ∧ middle.Leads second reached := by
  rw [Leads, List.foldlM_append]
  exact Option.bind_eq_some_iff

theorem leads_single (next : stage.next? token = some reached) : stage.Leads [token] reached :=
  leads_cons.mpr ⟨reached, next, leads_nil⟩

theorem Leads.append (leads : stage.Leads first middle) (further : middle.Leads second reached) :
    stage.Leads (first ++ second) reached :=
  leads_append.mpr ⟨middle, leads, further⟩

theorem Leads.unique {other : Stage} (leads : stage.Leads first reached)
    (leadsOther : stage.Leads first other) : reached = other :=
  Option.some.inj (leads.symm.trans leadsOther)

end Leads

section Steps

variable {enclosures : List Enclosure} {token : Token} {afterName afterOperator : Bool}

theorem next?_sign {operator : BinaryOperator} (isSign : IsSign token operator) :
    next? ⟨.operator afterName, enclosures⟩ token = some ⟨.operand true, enclosures⟩ := by
  have checked : ∀ symbol, operator.symbol? = some symbol → symbol ∈ signs := by
    intro symbol named
    cases operator <;> cases named <;> decide
  simp [next?, afterOperator?, isSign.1, checked _ isSign.2]

theorem next?_minus (isSign : IsSign token .subtract) :
    next? ⟨.operand afterOperator, enclosures⟩ token = some ⟨.operand true, enclosures⟩ := by
  have isMinus : token.text = "-" := (Option.some.inj isSign.2).symm
  simp [next?, afterOperand?, isSign.1, isMinus]

theorem next?_plus (isSign : IsSign token .add) :
    next? ⟨.operand false, enclosures⟩ token = some ⟨.operand true, enclosures⟩ := by
  have isPlus : token.text = "+" := (Option.some.inj isSign.2).symm
  simp [next?, afterOperand?, isSign.1, isPlus]

theorem next?_factorial (kind : token.kind = .factorial) :
    next? ⟨.operator afterName, enclosures⟩ token = some ⟨.operator false, enclosures⟩ := by
  simp [next?, afterOperator?, kind]

theorem next?_number (kind : token.kind = .number ∨ token.kind = .constant) :
    next? ⟨.operand afterOperator, enclosures⟩ token = some ⟨.operator false, enclosures⟩ := by
  rcases kind with kind | kind <;> simp [next?, afterOperand?, kind]

theorem next?_name (kind : token.kind = .identifier) :
    next? ⟨.operand afterOperator, enclosures⟩ token = some ⟨.operator true, enclosures⟩ := by
  simp [next?, afterOperand?, kind]

theorem next?_function (kind : token.kind = .function) :
    next? ⟨.operand afterOperator, enclosures⟩ token = some ⟨.opening, enclosures⟩ := by
  simp [next?, afterOperand?, kind]

theorem next?_parenthesis (kind : token.kind = .leftParenthesis) :
    next? ⟨.operand afterOperator, enclosures⟩ token =
      some ⟨.operand false, .parentheses :: enclosures⟩ := by
  simp [next?, afterOperand?, kind]

theorem next?_closing {enclosure : Enclosure} (kind : token.kind = .rightParenthesis) :
    next? ⟨.operator afterName, enclosure :: enclosures⟩ token =
      some ⟨.operator false, enclosures⟩ := by
  simp [next?, afterOperator?, afterClosing?, kind]

theorem next?_comma (kind : token.kind = .comma) :
    next? ⟨.operator afterName, .call :: enclosures⟩ token =
      some ⟨.operand false, .call :: enclosures⟩ := by
  simp [next?, afterOperator?, afterComma?, kind]

/-- A name and the opening parenthesis of its call. -/
theorem leads_call {opening : Token} (kind : token.kind = .function ∨ token.kind = .identifier)
    (opens : opening.kind = .leftParenthesis) :
    Leads ⟨.operand afterOperator, enclosures⟩ [token, opening]
      ⟨.operand false, .call :: enclosures⟩ := by
  rcases kind with kind | kind
  · refine leads_cons.mpr ⟨_, next?_function kind, leads_single ?_⟩
    simp [next?, opens]
  · refine leads_cons.mpr ⟨_, next?_name kind, leads_single ?_⟩
    simp [next?, afterOperator?, opens]

end Steps

section Operators

variable {stage reached : Stage} {token : Token} {tokens : List Token}

/-- After an operator an operand is to follow. -/
theorem expectation_of_operator (next : stage.next? token = some reached)
    (kind : token.kind = .operator) : reached.expectation = .operand true := by
  unfold next? at next
  split at next
  · simp only [afterOperand?, kind] at next
    split at next <;> cases next
    rfl
  · simp [kind] at next
  · simp only [afterOperator?, kind] at next
    split at next <;> cases next
    rfl

/-- Directly after an operator no other one than the minus sign may come. -/
theorem text_of_afterOperator (after : stage.expectation = .operand true)
    (next : stage.next? token = some reached) (kind : token.kind = .operator) :
    token.text = "-" := by
  simp only [next?, after, afterOperand?, kind] at next
  split at next
  next isMinus => simpa using isMinus
  next => cases next

/-- No operator other than the minus sign stands in front, if one stands before. -/
def Starts (afterOperator : Bool) (tokens : List Token) : Prop :=
  afterOperator = true → ∀ token ∈ tokens.head?, token.kind = .operator → token.text = "-"

/-- The tokens that may follow each other keep operators apart. -/
theorem isChain_of_leads (leads : stage.Leads tokens reached) : tokens.IsChain MayFollow := by
  induction tokens generalizing stage with
  | nil => exact List.isChain_nil
  | cons token rest ih =>
      obtain ⟨middle, next, further⟩ := leads_cons.mp leads
      cases rest with
      | nil => exact List.isChain_singleton _
      | cons second others =>
          refine List.isChain_cons_cons.mpr ⟨fun kind secondKind => ?_, ih further⟩
          obtain ⟨_, secondNext, -⟩ := leads_cons.mp further
          exact text_of_afterOperator (expectation_of_operator next kind) secondNext secondKind

end Operators

end Stage

open Stage

variable {left right tokens : List Token} {token : Token} {afterOperator : Bool}

theorem Stage.Starts.of_append (starts : Starts afterOperator (left ++ right)) :
    Starts afterOperator left := by
  intro after token isHead
  refine starts after token ?_
  rw [List.head?_append, isHead]
  rfl

theorem Stage.Starts.of_chain (sign : token.kind = .operator)
    (chain : (token :: tokens).IsChain MayFollow) : Starts afterOperator tokens := by
  intro _ next isHead kind
  cases tokens with
  | nil => cases isHead
  | cons head others =>
      cases isHead
      exact (List.isChain_cons_cons.mp chain).1 sign kind

/-- Nothing stands before. -/
theorem Stage.starts_false (tokens : List Token) : Starts false tokens :=
  fun afterOperator => absurd afterOperator Bool.false_ne_true

mutual

/-- An outline leads from where an operand is expected to where it may go on. -/
theorem Outlines.leads {phrase : Phrase} {tokens : List Token} (outline : Outlines phrase tokens)
    (chain : tokens.IsChain MayFollow) {afterOperator : Bool} (enclosures : List Enclosure)
    (starts : Starts afterOperator tokens) :
    ∃ afterName, Leads ⟨.operand afterOperator, enclosures⟩ tokens
      ⟨.operator afterName, enclosures⟩ :=
  match outline with
  | .product first | .factor first | .unsigned first | .base first | .unmarked first =>
      first.leads chain enclosures starts
  | .sum first sign _ second | .multiple first sign _ second | .raised first sign second => by
      obtain ⟨firstChain, restChain, -⟩ := List.isChain_append.mp chain
      obtain ⟨_, leads⟩ := first.leads firstChain enclosures starts.of_append
      obtain ⟨afterName, further⟩ :=
        second.leads restChain.tail enclosures (.of_chain sign.1 restChain)
      exact ⟨afterName, leads.append (leads_cons.mpr ⟨_, next?_sign sign, further⟩)⟩
  | .negation sign operand => by
      obtain ⟨afterName, further⟩ :=
        operand.leads chain.tail enclosures (.of_chain sign.1 chain)
      exact ⟨afterName, leads_cons.mpr ⟨_, next?_minus sign, further⟩⟩
  | .affirmation sign operand => by
      have isPlus := Option.some.inj sign.2
      cases afterOperator with
      | true =>
          -- Directly after an operator only a minus sign may stand.
          have isMinus := starts rfl _ rfl sign.1
          rw [← isPlus] at isMinus
          exact absurd isMinus (by decide)
      | false =>
          obtain ⟨afterName, further⟩ :=
            operand.leads chain.tail enclosures (.of_chain sign.1 chain)
          exact ⟨afterName, leads_cons.mpr ⟨_, next?_plus sign, further⟩⟩
  | .factorial operand kind => by
      obtain ⟨_, leads⟩ :=
        operand.leads (List.isChain_append.mp chain).1 enclosures starts.of_append
      exact ⟨false, leads.append (leads_single (next?_factorial kind))⟩
  | .number kind => ⟨false, leads_single (next?_number (.inl kind))⟩
  | .constant kind => ⟨false, leads_single (next?_number (.inr kind))⟩
  | .variableName kind => ⟨true, leads_single (next?_name kind)⟩
  | .call kind opens arguments =>
      ⟨false, (leads_call kind opens).append (arguments.leads chain.tail.tail enclosures)⟩
  | .parentheses kind inner closes => by
      obtain ⟨_, leads⟩ := inner.leads (List.isChain_append.mp chain.tail).1
        (.parentheses :: enclosures) (starts_false _)
      exact ⟨false, leads_cons.mpr ⟨_, next?_parenthesis kind,
        leads.append (leads_single (next?_closing closes))⟩⟩

/-- Outlined arguments lead to where the call may go on. -/
theorem OutlinesArguments.leads {tokens : List Token} (outline : OutlinesArguments tokens)
    (chain : tokens.IsChain MayFollow) (enclosures : List Enclosure) :
    Leads ⟨.operand false, .call :: enclosures⟩ tokens ⟨.operator false, enclosures⟩ :=
  match outline with
  | .last argument closes => by
      obtain ⟨_, leads⟩ := argument.leads (List.isChain_append.mp chain).1 (.call :: enclosures)
        (starts_false _)
      exact leads.append (leads_single (next?_closing closes))
  | .more argument comma others => by
      obtain ⟨firstChain, restChain, -⟩ := List.isChain_append.mp chain
      obtain ⟨_, leads⟩ := argument.leads firstChain (.call :: enclosures) (starts_false _)
      exact leads.append (leads_cons.mpr ⟨_, next?_comma comma,
        others.leads restChain.tail enclosures⟩)

end

section Acceptance

variable {before completion rest : List Token} {reached : Stage}

def Stage.start : Stage :=
  ⟨.operand false, []⟩

/-- Tokens that complete any outline: a name and parentheses. -/
def fillers : List Token :=
  [⟨.identifier, "x", 0⟩, ⟨.leftParenthesis, "(", 0⟩, ⟨.rightParenthesis, ")", 0⟩]

theorem fillers_plain : ∀ filler ∈ fillers, filler.kind ≠ .operator ∧ filler.kind ≠ .finish := by
  decide

theorem Stage.not_finish_of_leads {stage : Stage} (leads : stage.Leads before reached) :
    ∀ token ∈ before, token.kind ≠ .finish := by
  induction before generalizing stage with
  | nil => exact List.forall_mem_nil _
  | cons token rest ih =>
      obtain ⟨middle, next, further⟩ := leads_cons.mp leads
      refine List.forall_mem_cons.mpr ⟨fun kind => ?_, ih further⟩
      have stuck : stage.next? token = none := by
        unfold next?
        split <;> simp [afterOperand?, afterOperator?, kind]
      rw [stuck] at next
      cases next

theorem beforeEnd_append (noEnd : ∀ token ∈ before, token.kind ≠ .finish) :
    beforeEnd (before ++ rest) = before ++ beforeEnd rest :=
  List.takeWhile_append_of_pos fun token member => decide_eq_true (noEnd token member)

/-- Tokens that lead somewhere and a completion of them are accepted. -/
theorem accepts_append (leads : Stage.start.Leads before reached)
    (filling : completion ⊆ fillers) (outline : Outlines .additive (before ++ completion)) :
    Accepts (before ++ completion) := by
  have whole : beforeEnd (before ++ completion) = before ++ completion := by
    have noEnd : ∀ token ∈ completion, token.kind ≠ .finish := fun token member =>
      (fillers_plain token (filling member)).2
    have unended := @beforeEnd_append completion [] noEnd
    rw [List.append_nil] at unended
    rw [beforeEnd_append (not_finish_of_leads leads), unended]
    exact congrArg _ (List.append_nil completion)
  refine ⟨whole.symm ▸ outline, whole.symm ▸ ?_⟩
  refine List.isChain_append.mpr ⟨isChain_of_leads leads, ?_, ?_⟩
  · refine List.Pairwise.isChain (List.pairwise_of_forall_mem_list ?_)
    intro _ _ second isMember _ kind
    exact absurd kind (fillers_plain second (filling isMember)).1
  · intro _ _ second isHead _ kind
    exact absurd kind (fillers_plain second (filling (List.mem_of_mem_head? isHead))).1

/-- Nothing is accepted that goes on with a token that cannot come next. -/
theorem not_accepts_append {token : Token} (leads : Stage.start.Leads before reached)
    (blocks : reached.Blocks token) (rest : List Token) : ¬ Accepts (before ++ token :: rest) := by
  intro accepts
  have noEnd := not_finish_of_leads leads
  have outline := accepts.outlines
  have apart := accepts.apart
  rw [beforeEnd_append noEnd] at outline apart
  obtain ⟨afterName, leadsOn⟩ := outline.leads apart [] (starts_false _)
  obtain ⟨middle, leadsBefore, leadsAfter⟩ := leads_append.mp leadsOn
  cases leads.unique leadsBefore
  by_cases kind : token.kind = .finish
  · rw [beforeEnd, List.takeWhile_cons_of_neg (by simp [kind])] at leadsAfter
    have incomplete := blocks.incomplete kind
    rw [leads_nil.unique leadsAfter] at incomplete
    cases incomplete
  · rw [beforeEnd, List.takeWhile_cons_of_pos (by simp [kind])] at leadsAfter
    obtain ⟨_, next, -⟩ := leads_cons.mp leadsAfter
    rw [blocks.stuck] at next
    cases next

end Acceptance

end Grammar

end ExprCalculus
