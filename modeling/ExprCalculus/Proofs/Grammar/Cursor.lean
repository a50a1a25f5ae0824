import ExprCalculus.Proofs.Grammar.Blame
import ExprCalculus.Proofs.Outcomes

/-!
# Reading by index

The reader works on what is left of the tokens.  Here the same steps are taken with an index
into the whole list, which stays where it is at an end token: each look at a token may fall
outside the list, and the number of steps is limited.  In a list that ends with an end token
neither happens, and what is read is the same.
-/

namespace ExprCalculus

namespace Parser

/-- The tokens, with an end token after them unless they end with one. -/
def closed (tokens : List Token) : List Token :=
  if tokens.getLast?.map (·.kind) = some .finish then
    tokens
  else
    tokens ++ [⟨.finish, "", (tokens.getLast?.map (·.position + 1)).getD 0⟩]

namespace Cursor

/-- Why reading by index ends without an expression. -/
inductive Fault where
  | outside (index : Nat)
  | exhausted
  | reported (error : ReadError)

def failAt {α : Type} (cause : ParseError.Cause) (token : Token) : Except Fault α :=
  .error (.reported (.grammatical ⟨cause, token⟩))

def report {α : Type} (result : Except ReadError α) : Except Fault α :=
  result.mapError .reported

variable (tokens : List Token)

def tokenAt (index : Nat) : Except Fault Token :=
  match tokens[index]? with
  | some token => .ok token
  | none => .error (.outside index)

/-- The token after an index, or the last one. -/
def peek (index : Nat) : Except Fault Token :=
  tokenAt tokens (min (index + 1) (tokens.length - 1))

/-- The index after the token at an index, unless that is an end token. -/
def advance (index : Nat) : Except Fault Nat := do
  let token ← tokenAt tokens index
  return if token.kind = .finish then index else index + 1

def requireOperand (operator : String) (index : Nat) : Except Fault Unit := do
  let next ← tokenAt tokens index
  if mayFollowOperator next then
    return ()
  else
    failAt (.expectedOperand operator) next

def closing (index : Nat) : Except Fault Nat := do
  let next ← tokenAt tokens index
  if next.kind = .rightParenthesis then
    advance tokens index
  else
    failAt .expectedClosing next

mutual

def additive : Nat → Nat → Except Fault (Expr Float × Nat)
  | 0, _ => .error .exhausted
  | steps + 1, index => do
      let (left, index) ← multiplicative steps index
      additiveTail steps left index
termination_by structural steps => steps

def additiveTail : Nat → Expr Float → Nat → Except Fault (Expr Float × Nat)
  | 0, _, _ => .error .exhausted
  | steps + 1, left, index => do
      let token ← tokenAt tokens index
      match additiveOperator? token with
      | none => return (left, index)
      | some operator =>
          let index ← advance tokens index
          requireOperand tokens token.text index
          let (right, index) ← multiplicative steps index
          additiveTail steps (.binary operator left right) index
termination_by structural steps => steps

def multiplicative : Nat → Nat → Except Fault (Expr Float × Nat)
  | 0, _ => .error .exhausted
  | steps + 1, index => do
      let (left, index) ← signed steps index
      multiplicativeTail steps left index
termination_by structural steps => steps

def multiplicativeTail : Nat → Expr Float → Nat → Except Fault (Expr Float × Nat)
  | 0, _, _ => .error .exhausted
  | steps + 1, left, index => do
      let token ← tokenAt tokens index
      match multiplicativeOperator? token with
      | none => return (left, index)
      | some operator =>
          let index ← advance tokens index
          requireOperand tokens token.text index
          let (right, index) ← signed steps index
          multiplicativeTail steps (.binary operator left right) index
termination_by structural steps => steps

def signed : Nat → Nat → Except Fault (Expr Float × Nat)
  | 0, _ => .error .exhausted
  | steps + 1, index => do
      let token ← tokenAt tokens index
      if token.isOperator ["-"] then
        let index ← advance tokens index
        requireOperand tokens token.text index
        let (operand, index) ← signed steps index
        return (.unary .negate operand, index)
      else if token.isOperator ["+"] then
        let index ← advance tokens index
        requireOperand tokens token.text index
        signed steps index
      else
        powered steps index
termination_by structural steps => steps

def powered : Nat → Nat → Except Fault (Expr Float × Nat)
  | 0, _ => .error .exhausted
  | steps + 1, index => do
      let (operand, index) ← primary steps index
      let (base, index) ← marks steps operand index
      exponent steps base index
termination_by structural steps => steps

def exponent : Nat → Expr Float → Nat → Except Fault (Expr Float × Nat)
  | 0, _, _ => .error .exhausted
  | steps + 1, base, index => do
      let token ← tokenAt tokens index
      if token.isOperator ["^"] then
        let index ← advance tokens index
        requireOperand tokens token.text index
        let (raised, index) ← signed steps index
        return (.binary .power base raised, index)
      else
        return (base, index)
termination_by structural steps => steps

def marks : Nat → Expr Float → Nat → Except Fault (Expr Float × Nat)
  | 0, _, _ => .error .exhausted
  | steps + 1, operand, index => do
      let token ← tokenAt tokens index
      if token.kind = .factorial then
        let index ← advance tokens index
        marks steps (.unary .factorial operand) index
      else
        return (operand, index)
termination_by structural steps => steps

def primary : Nat → Nat → Except Fault (Expr Float × Nat)
  | 0, _ => .error .exhausted
  | steps + 1, index => do
      let token ← tokenAt tokens index
      match token.kind with
      | .number =>
          let index ← advance tokens index
          match Decimal.read? token.text with
          | some value => return (.const value, index)
          | none => .error (.reported (.unreadableNumber token.text))
      | .constant =>
          let index ← advance tokens index
          match Token.constantValue? token.text with
          | some value => return (.const value, index)
          | none => .error (.reported (.unknownConstant token.text))
      | .function =>
          let next ← peek tokens index
          if next.kind = .leftParenthesis then
            call steps token index
          else
            failAt (.expectedOpening token.text) next
      | .identifier =>
          let next ← peek tokens index
          if next.kind = .leftParenthesis then
            call steps token index
          else
            let index ← advance tokens index
            let tree ← report (variableOf token).outcome
            return (tree, index)
      | .leftParenthesis =>
          let index ← advance tokens index
          let next ← tokenAt tokens index
          if next.kind = .rightParenthesis then
            failAt .emptyParentheses next
          else
            let (inner, index) ← additive steps index
            let index ← closing tokens index
            return (inner, index)
      | .finish => failAt .unexpectedEnd token
      | _ => failAt .unexpectedToken token
termination_by structural steps => steps

def call : Nat → Token → Nat → Except Fault (Expr Float × Nat)
  | 0, _, _ => .error .exhausted
  | steps + 1, token, index => do
      let index ← advance tokens index
      let index ← advance tokens index
      let next ← tokenAt tokens index
      if next.kind = .rightParenthesis then
        failAt .noArguments next
      else
        let (first, index) ← additive steps index
        let (others, index) ← furtherArguments steps index
        let tree ← report (callOf token first others)
        return (tree, index)
termination_by structural steps => steps

def furtherArguments : Nat → Nat → Except Fault (List (Expr Float) × Nat)
  | 0, _ => .error .exhausted
  | steps + 1, index => do
      let token ← tokenAt tokens index
      if token.kind = .comma then
        let index ← advance tokens index
        let (argument, index) ← additive steps index
        let (others, index) ← furtherArguments steps index
        return (argument :: others, index)
      else if token.kind = .rightParenthesis then
        let index ← advance tokens index
        return ([], index)
      else
        failAt .expectedClosingOrComma token
termination_by structural steps => steps

end

/-- Reads the whole of some tokens in a limited number of steps. -/
def parse (steps : Nat) : Except Fault (Expr Float) := do
  let token ← tokenAt (closed tokens) 0
  if token.kind = .finish then
    failAt .empty token
  else
    let (tree, index) ← additive (closed tokens) steps 0
    let next ← tokenAt (closed tokens) index
    if next.kind = .finish then
      return tree
    else
      failAt .expectedEnd next

end Cursor

open Cursor

/-- Some tokens are those before the first end token of a list. -/
structure IsBody (body tokens : List Token) (stop : Token) : Prop where
  split : ∃ after, tokens = body ++ stop :: after
  finished : stop.kind = .finish
  noEnd : ∀ token ∈ body, token.kind ≠ .finish

namespace IsBody

variable {body tokens rest : List Token} {stop token : Token} {index : Nat}

/-- An index inside looks at what is left of the tokens from there. -/
theorem tokenAt_eq (isBody : IsBody body tokens stop) (inside : index ≤ body.length) :
    tokenAt tokens index = .ok ((body.drop index).headD stop) := by
  obtain ⟨after, rfl⟩ := isBody.split
  have found : (body ++ stop :: after)[index]? = some ((body.drop index).headD stop) := by
    rw [List.headD_eq_head?_getD, List.head?_drop]
    rcases Nat.lt_or_eq_of_le inside with within | rfl
    · rw [List.getElem?_append_left within, List.getElem?_eq_getElem within]
      rfl
    · rw [List.getElem?_append_right (Nat.le_refl _), Nat.sub_self,
        List.getElem?_eq_none (Nat.le_refl _)]
      rfl
  rw [tokenAt, found]

/-- The end of the tokens before the end token, or a token of them and what is left after it. -/
theorem cases (inside : index ≤ body.length) :
    (body.drop index = [] ∧ index = body.length) ∨
      ∃ token, body.drop index = token :: body.drop (index + 1) ∧ index < body.length := by
  rcases Nat.lt_or_eq_of_le inside with within | rfl
  · exact .inr ⟨body[index], List.drop_eq_getElem_cons within, within⟩
  · exact .inl ⟨List.drop_length, rfl⟩

theorem advance_eq (isBody : IsBody body tokens stop) (inside : index < body.length)
    (shape : body.drop index = token :: rest) : advance tokens index = .ok (index + 1) := by
  have member : token ∈ body := List.mem_of_mem_drop (shape ▸ List.mem_cons_self)
  rw [advance, isBody.tokenAt_eq (Nat.le_of_lt inside), shape]
  simp [isBody.noEnd token member]

theorem peek_eq (isBody : IsBody body tokens stop) (inside : index < body.length) :
    peek tokens index = .ok ((body.drop (index + 1)).headD stop) := by
  obtain ⟨after, same⟩ := isBody.split
  have next : min (index + 1) (tokens.length - 1) = index + 1 := by
    rw [same, List.length_append, List.length_cons]
    omega
  rw [peek, next]
  exact isBody.tokenAt_eq inside

theorem requireOperand_eq (isBody : IsBody body tokens stop) (inside : index ≤ body.length)
    (operator : String) :
    Cursor.requireOperand tokens operator index =
      report (requireOperand stop operator (body.drop index)).outcome := by
  rw [Cursor.requireOperand, isBody.tokenAt_eq inside, requireOperand]
  simp only [bind, Except.bind]
  split <;> rfl

end IsBody

/-- Reading by index finds what the reader returns, and what is left begins at the index. -/
def Agrees {β : Type} (body : List Token) (least : Nat) :
    Except ReadError (β × List Token) → Except Fault (β × Nat) → Prop
  | .ok (value, rest), found =>
      ∃ index, found = .ok (value, index) ∧ rest = body.drop index ∧ least ≤ index ∧
        index ≤ body.length
  | .error error, found => found = .error (.reported error)

namespace Agrees

variable {β γ : Type} {body : List Token} {least most index : Nat}
  {result : Except ReadError (β × List Token)} {found : Except Fault (β × Nat)}

theorem weaken (agrees : Agrees body most result found) (lower : least ≤ most) :
    Agrees body least result found := by
  cases result with
  | ok read =>
      obtain ⟨index, same, isRest, isLeast, inside⟩ := agrees
      exact ⟨index, same, isRest, Nat.le_trans lower isLeast, inside⟩
  | error error => exact agrees

theorem bind {further : β × List Token → Except ReadError (γ × List Token)}
    {furtherFound : β × Nat → Except Fault (γ × Nat)} (agrees : Agrees body least result found)
    (continues : ∀ value index, least ≤ index → index ≤ body.length →
      Agrees body most (further (value, body.drop index)) (furtherFound (value, index))) :
    Agrees body most (result.bind further) (found >>= furtherFound) := by
  cases result with
  | ok read =>
      obtain ⟨value, rest⟩ := read
      obtain ⟨index, rfl, rfl, isLeast, inside⟩ := agrees
      exact continues value index isLeast inside
  | error error =>
      cases agrees
      rfl

theorem map {image : β × List Token → γ × List Token}
    {furtherFound : β × Nat → Except Fault (γ × Nat)} (agrees : Agrees body least result found)
    (continues : ∀ value index, least ≤ index → index ≤ body.length →
      Agrees body most (.ok (image (value, body.drop index))) (furtherFound (value, index))) :
    Agrees body most (result.map image) (found >>= furtherFound) :=
  agrees.bind continues

/-- A step that looks at no token. -/
theorem report_bind {outcome : Except ReadError γ}
    {further : γ → Except ReadError (β × List Token)} {furtherFound : γ → Except Fault (β × Nat)}
    (continues : ∀ value, Agrees body least (further value) (furtherFound value)) :
    Agrees body least (outcome.bind further) (report outcome >>= furtherFound) := by
  cases outcome with
  | ok value => exact continues value
  | error error => rfl

/-- Nothing more is read. -/
theorem stay {value : β} (lower : least ≤ index) (inside : index ≤ body.length) :
    Agrees body least (.ok (value, body.drop index)) (.ok (value, index)) :=
  ⟨index, rfl, rfl, lower, inside⟩

end Agrees

section Ends

variable {stop : Token}

/-- The end token is no operator. -/
theorem isOperator_finish (finished : stop.kind = .finish) (symbols : List String) :
    stop.isOperator symbols = false := by
  simp [Token.isOperator, finished]

theorem additiveOperator?_finish (finished : stop.kind = .finish) :
    additiveOperator? stop = none := by
  simp [additiveOperator?, isOperator_finish finished]

theorem multiplicativeOperator?_finish (finished : stop.kind = .finish) :
    multiplicativeOperator? stop = none := by
  simp [multiplicativeOperator?, isOperator_finish finished]

end Ends

/-- The call of a name, with the arguments one after the other. -/
theorem stepResult_call (stop : Token) {token opening : Token}
    (kind : token.kind = .function ∨ token.kind = .identifier)
    (opens : opening.kind = .leftParenthesis) (inner : List Token) :
    stepResult (primary stop (token :: opening :: inner)) =
      if (inner.headD stop).kind = .rightParenthesis then
        .error (.grammatical ⟨.noArguments, inner.headD stop⟩)
      else
        (stepResult (additive stop inner)).bind fun (first, middle) =>
          (moreResult (furtherArguments stop middle)).bind fun (others, rest) =>
            (callOf token first others).bind fun tree => .ok (tree, rest) := by
  rw [stepResult_primary_call stop kind opens, argumentsResult_callArguments]
  split
  · rfl
  rcases stepResult (additive stop inner) with error | ⟨first, middle⟩
  · rfl
  simp only [Except.bind]
  rcases moreResult (furtherArguments stop middle) with error | ⟨others, rest⟩ <;> rfl

variable {body tokens : List Token} {stop : Token}

/-- A closing parenthesis is read by index. -/
theorem closing_agrees {index : Nat} (isBody : IsBody body tokens stop)
    (inside : index ≤ body.length) (inner : Expr Float) :
    Agrees body index
      ((closing stop (body.drop index)).outcome.map fun closed => (inner, closed.rest))
      (Cursor.closing tokens index >>= fun next => .ok (inner, next)) := by
  rw [Cursor.closing, isBody.tokenAt_eq inside, except_ok_bind]
  rcases IsBody.cases inside with ⟨shape, -⟩ | ⟨token, shape, within⟩
  · rw [shape, List.headD_nil, if_neg (by simp [isBody.finished])]
    rfl
  · rw [shape, List.headD_cons, closing]
    split
    next =>
      rw [isBody.advance_eq within shape, except_ok_bind]
      exact Agrees.stay (Nat.le_succ _) within
    next => rfl

mutual

theorem additive_agrees (isBody : IsBody body tokens stop) (steps index : Nat)
    (inside : index ≤ body.length) (enough : 10 * (body.length - index) + 6 < steps) :
    Agrees body (index + 1) (stepResult (additive stop (body.drop index)))
      (Cursor.additive tokens steps index) := by
  cases steps with
  | zero => exact absurd enough (Nat.not_lt_zero _)
  | succ steps =>
      -- A token pays for ten steps; a procedure called on the same tokens needs one step less.
      rw [stepResult_additive, Cursor.additive]
      refine (multiplicative_agrees isBody steps index inside (by omega)).bind
        fun left middle further within => ?_
      exact (additiveTail_agrees isBody steps left middle within (by omega)).weaken (by omega)
termination_by steps

theorem additiveTail_agrees (isBody : IsBody body tokens stop) (steps : Nat) (left : Expr Float)
    (index : Nat) (inside : index ≤ body.length)
    (enough : 10 * (body.length - index) + 5 < steps) :
    Agrees body index (extensionResult (additiveTail stop left (body.drop index)))
      (Cursor.additiveTail tokens steps left index) := by
  cases steps with
  | zero => exact absurd enough (Nat.not_lt_zero _)
  | succ steps =>
      have stays := @Agrees.stay _ body index index left (Nat.le_refl _) inside
      rw [Cursor.additiveTail, isBody.tokenAt_eq inside, except_ok_bind]
      rcases IsBody.cases inside with ⟨shape, -⟩ | ⟨token, shape, within⟩
      · rw [shape] at stays ⊢
        rw [extensionResult_additiveTail_nil, List.headD_nil,
          additiveOperator?_finish isBody.finished]
        exact stays
      · rw [shape] at stays ⊢
        rw [extensionResult_additiveTail_cons, List.headD_cons]
        cases additiveOperator? token with
        | none => exact stays
        | some operator =>
            dsimp only
            rw [isBody.advance_eq within shape, except_ok_bind,
              isBody.requireOperand_eq within]
            refine Agrees.report_bind fun _ => ?_
            refine (multiplicative_agrees isBody steps (index + 1) within (by omega)).bind
              fun right next further bound => ?_
            exact (additiveTail_agrees isBody steps (.binary operator left right) next bound
              (by omega)).weaken (by omega)
termination_by steps

theorem multiplicative_agrees (isBody : IsBody body tokens stop) (steps index : Nat)
    (inside : index ≤ body.length) (enough : 10 * (body.length - index) + 4 < steps) :
    Agrees body (index + 1) (stepResult (multiplicative stop (body.drop index)))
      (Cursor.multiplicative tokens steps index) := by
  cases steps with
  | zero => exact absurd enough (Nat.not_lt_zero _)
  | succ steps =>
      rw [stepResult_multiplicative, Cursor.multiplicative]
      refine (signed_agrees isBody steps index inside (by omega)).bind
        fun left middle further within => ?_
      exact (multiplicativeTail_agrees isBody steps left middle within (by omega)).weaken (by omega)
termination_by steps

theorem multiplicativeTail_agrees (isBody : IsBody body tokens stop) (steps : Nat)
    (left : Expr Float) (index : Nat) (inside : index ≤ body.length)
    (enough : 10 * (body.length - index) + 3 < steps) :
    Agrees body index (extensionResult (multiplicativeTail stop left (body.drop index)))
      (Cursor.multiplicativeTail tokens steps left index) := by
  cases steps with
  | zero => exact absurd enough (Nat.not_lt_zero _)
  | succ steps =>
      have stays := @Agrees.stay _ body index index left (Nat.le_refl _) inside
      rw [Cursor.multiplicativeTail, isBody.tokenAt_eq inside, except_ok_bind]
      rcases IsBody.cases inside with ⟨shape, -⟩ | ⟨token, shape, within⟩
      · rw [shape] at stays ⊢
        rw [extensionResult_multiplicativeTail_nil, List.headD_nil,
          multiplicativeOperator?_finish isBody.finished]
        exact stays
      · rw [shape] at stays ⊢
        rw [extensionResult_multiplicativeTail_cons, List.headD_cons]
        cases multiplicativeOperator? token with
        | none => exact stays
        | some operator =>
            dsimp only
            rw [isBody.advance_eq within shape, except_ok_bind,
              isBody.requireOperand_eq within]
            refine Agrees.report_bind fun _ => ?_
            refine (signed_agrees isBody steps (index + 1) within (by omega)).bind
              fun right next further bound => ?_
            exact (multiplicativeTail_agrees isBody steps (.binary operator left right) next bound
              (by omega)).weaken (by omega)
termination_by steps

theorem signed_agrees (isBody : IsBody body tokens stop) (steps index : Nat)
    (inside : index ≤ body.length) (enough : 10 * (body.length - index) + 2 < steps) :
    Agrees body (index + 1) (stepResult (signed stop (body.drop index)))
      (Cursor.signed tokens steps index) := by
  cases steps with
  | zero => exact absurd enough (Nat.not_lt_zero _)
  | succ steps =>
      have powered := powered_agrees isBody steps index inside (by omega)
      rw [Cursor.signed, isBody.tokenAt_eq inside, except_ok_bind]
      rcases IsBody.cases inside with ⟨shape, -⟩ | ⟨token, shape, within⟩
      · rw [shape] at powered ⊢
        rw [stepResult_signed_nil, List.headD_nil, isOperator_finish isBody.finished,
          if_neg Bool.false_ne_true, isOperator_finish isBody.finished, if_neg Bool.false_ne_true]
        exact powered
      · rw [shape] at powered ⊢
        rw [stepResult_signed_cons, List.headD_cons]
        split
        next =>
          rw [isBody.advance_eq within shape, except_ok_bind, isBody.requireOperand_eq within]
          refine Agrees.report_bind fun _ => ?_
          refine (signed_agrees isBody steps (index + 1) within (by omega)).map
            fun operand next further bound => ?_
          exact Agrees.stay (by omega) bound
        next =>
          split
          next =>
            rw [isBody.advance_eq within shape, except_ok_bind, isBody.requireOperand_eq within]
            refine Agrees.report_bind fun _ => ?_
            exact (signed_agrees isBody steps (index + 1) within (by omega)).weaken (by omega)
          next => exact powered
termination_by steps

theorem powered_agrees (isBody : IsBody body tokens stop) (steps index : Nat)
    (inside : index ≤ body.length) (enough : 10 * (body.length - index) + 1 < steps) :
    Agrees body (index + 1) (stepResult (powered stop (body.drop index)))
      (Cursor.powered tokens steps index) := by
  cases steps with
  | zero => exact absurd enough (Nat.not_lt_zero _)
  | succ steps =>
      rw [stepResult_powered, Cursor.powered]
      refine (primary_agrees isBody steps index inside (by omega)).bind
        fun operand middle further within => ?_
      have raised : Agrees body (index + 1)
          ((Except.ok (marked operand (body.drop middle))).bind fun (base, rest) =>
            extensionResult (exponent stop base rest))
          (Cursor.marks tokens steps operand middle >>= fun (base, next) =>
            Cursor.exponent tokens steps base next) :=
        (marks_agrees isBody steps operand middle within (by omega)).bind
          fun base next later bound =>
            (exponent_agrees isBody steps base next bound (by omega)).weaken (by omega)
      exact raised
termination_by steps

theorem marks_agrees (isBody : IsBody body tokens stop) (steps : Nat) (operand : Expr Float)
    (index : Nat) (inside : index ≤ body.length) (enough : 10 * (body.length - index) < steps) :
    Agrees body index (.ok (marked operand (body.drop index)))
      (Cursor.marks tokens steps operand index) := by
  cases steps with
  | zero => exact absurd enough (Nat.not_lt_zero _)
  | succ steps =>
      have stays := @Agrees.stay _ body index index operand (Nat.le_refl _) inside
      rw [Cursor.marks, isBody.tokenAt_eq inside, except_ok_bind]
      rcases IsBody.cases inside with ⟨shape, -⟩ | ⟨token, shape, within⟩
      · rw [shape] at stays ⊢
        rw [List.headD_nil, if_neg (by simp [isBody.finished])]
        exact stays
      · rw [shape] at stays ⊢
        rw [List.headD_cons]
        split
        next mark =>
          rw [marked_of_factorial mark, isBody.advance_eq within shape, except_ok_bind]
          exact (marks_agrees isBody steps (.unary .factorial operand) (index + 1) within
            (by omega)).weaken (by omega)
        next notMark =>
          rw [marked_of_not_factorial (by rintro _ ⟨⟩; exact notMark)]
          exact stays
termination_by steps

theorem exponent_agrees (isBody : IsBody body tokens stop) (steps : Nat) (base : Expr Float)
    (index : Nat) (inside : index ≤ body.length) (enough : 10 * (body.length - index) < steps) :
    Agrees body index (extensionResult (exponent stop base (body.drop index)))
      (Cursor.exponent tokens steps base index) := by
  cases steps with
  | zero => exact absurd enough (Nat.not_lt_zero _)
  | succ steps =>
      have stays := @Agrees.stay _ body index index base (Nat.le_refl _) inside
      rw [Cursor.exponent, isBody.tokenAt_eq inside, except_ok_bind]
      rcases IsBody.cases inside with ⟨shape, -⟩ | ⟨token, shape, within⟩
      · rw [shape] at stays ⊢
        rw [extensionResult_exponent_nil, List.headD_nil, isOperator_finish isBody.finished,
          if_neg Bool.false_ne_true]
        exact stays
      · rw [shape] at stays ⊢
        rw [extensionResult_exponent_cons, List.headD_cons]
        split
        next =>
          rw [isBody.advance_eq within shape, except_ok_bind, isBody.requireOperand_eq within]
          refine Agrees.report_bind fun _ => ?_
          refine (signed_agrees isBody steps (index + 1) within (by omega)).map
            fun raised next further bound => ?_
          exact Agrees.stay (by omega) bound
        next => exact stays
termination_by steps

theorem primary_agrees (isBody : IsBody body tokens stop) (steps index : Nat)
    (inside : index ≤ body.length) (enough : 10 * (body.length - index) < steps) :
    Agrees body (index + 1) (stepResult (primary stop (body.drop index)))
      (Cursor.primary tokens steps index) := by
  cases steps with
  | zero => exact absurd enough (Nat.not_lt_zero _)
  | succ steps =>
      rw [Cursor.primary, isBody.tokenAt_eq inside, except_ok_bind]
      rcases IsBody.cases inside with ⟨shape, -⟩ | ⟨token, shape, within⟩
      · rw [shape, stepResult_primary_nil, List.headD_nil, isBody.finished]
        rfl
      · rw [shape, List.headD_cons]
        have advances := isBody.advance_eq within shape
        have peeks := isBody.peek_eq within
        cases kind : token.kind with
        | number =>
            rw [stepResult_primary_number stop _ kind]
            dsimp only
            rw [advances, except_ok_bind]
            cases Decimal.read? token.text with
            | some value => exact Agrees.stay (Nat.le_refl _) within
            | none => rfl
        | constant =>
            rw [stepResult_primary_constant stop _ kind]
            dsimp only
            rw [advances, except_ok_bind]
            cases Token.constantValue? token.text with
            | some value => exact Agrees.stay (Nat.le_refl _) within
            | none => rfl
        | function =>
            dsimp only
            rw [peeks, except_ok_bind]
            rcases IsBody.cases within with ⟨next, -⟩ | ⟨opening, next, nextWithin⟩
            · rw [next, List.headD_nil, if_neg (by simp [isBody.finished]),
                stepResult_primary_unopened stop [] kind (by simp)]
              rfl
            · rw [next] at shape ⊢
              rw [List.headD_cons]
              split
              next opens =>
                exact call_agrees isBody steps token opening index (.inl kind) opens shape
                  nextWithin (by omega)
              next unopened =>
                rw [stepResult_primary_unopened stop _ kind (by rintro _ ⟨⟩; exact unopened)]
                rfl
        | identifier =>
            dsimp only
            rw [peeks, except_ok_bind]
            have named := @Agrees.report_bind (Expr Float) (Expr Float) body (index + 1)
              (variableOf token).outcome (fun tree => .ok (tree, body.drop (index + 1)))
              (fun tree => .ok (tree, index + 1)) fun tree => .stay (Nat.le_refl _) within
            rcases IsBody.cases within with ⟨next, -⟩ | ⟨opening, next, nextWithin⟩
            · rw [next] at shape named ⊢
              rw [List.headD_nil, if_neg (by simp [isBody.finished]), advances, except_ok_bind,
                stepResult_primary_variable stop [] kind (by simp)]
              exact named
            · rw [next] at shape named ⊢
              rw [List.headD_cons]
              split
              next opens =>
                exact call_agrees isBody steps token opening index (.inr kind) opens shape
                  nextWithin (by omega)
              next unopened =>
                rw [advances, except_ok_bind,
                  stepResult_primary_variable stop _ kind (by rintro _ ⟨⟩; exact unopened)]
                exact named
        | leftParenthesis =>
            rw [stepResult_primary_parenthesis stop _ kind]
            dsimp only
            rw [advances, except_ok_bind, isBody.tokenAt_eq within, except_ok_bind]
            split
            next => rfl
            next =>
              refine (additive_agrees isBody steps (index + 1) within (by omega)).bind
                fun inner middle further bound => ?_
              exact (closing_agrees isBody bound inner).weaken (by omega)
        | operator | rightParenthesis | comma | factorial | finish =>
            rw [stepResult_primary_other stop _ (by simp [kind]), kind]
            rfl
termination_by steps

theorem call_agrees (isBody : IsBody body tokens stop) (steps : Nat) (token opening : Token)
    (index : Nat) (kind : token.kind = .function ∨ token.kind = .identifier)
    (opens : opening.kind = .leftParenthesis)
    (shape : body.drop index = token :: opening :: body.drop (index + 2))
    (inside : index + 1 < body.length) (enough : 10 * (body.length - index - 1) + 8 < steps) :
    Agrees body (index + 1)
      (stepResult (primary stop (token :: opening :: body.drop (index + 2))))
      (Cursor.call tokens steps token index) := by
  cases steps with
  | zero => exact absurd enough (Nat.not_lt_zero _)
  | succ steps =>
      have next : body.drop (index + 1) = opening :: body.drop (index + 2) := by
        rw [← List.tail_drop, shape, List.tail_cons]
      have within : index + 2 ≤ body.length := inside
      rw [stepResult_call stop kind opens, Cursor.call,
        isBody.advance_eq (Nat.lt_of_succ_lt inside) shape, except_ok_bind,
        isBody.advance_eq inside next, except_ok_bind, isBody.tokenAt_eq within, except_ok_bind]
      split
      next => rfl
      next =>
        refine (additive_agrees isBody steps (index + 2) within (by omega)).bind
          fun first middle further bound => ?_
        refine (furtherArguments_agrees isBody steps middle bound (by omega)).bind
          fun others last later closed => ?_
        exact Agrees.report_bind fun tree => .stay (by omega) closed
termination_by steps

theorem furtherArguments_agrees (isBody : IsBody body tokens stop) (steps index : Nat)
    (inside : index ≤ body.length) (enough : 10 * (body.length - index) + 8 < steps) :
    Agrees body (index + 1) (moreResult (furtherArguments stop (body.drop index)))
      (Cursor.furtherArguments tokens steps index) := by
  cases steps with
  | zero => exact absurd enough (Nat.not_lt_zero _)
  | succ steps =>
      rw [Cursor.furtherArguments, isBody.tokenAt_eq inside, except_ok_bind]
      rcases IsBody.cases inside with ⟨shape, -⟩ | ⟨token, shape, within⟩
      · rw [shape, moreResult_furtherArguments_nil, List.headD_nil,
          if_neg (by simp [isBody.finished]), if_neg (by simp [isBody.finished])]
        rfl
      · rw [shape, moreResult_furtherArguments_cons, List.headD_cons]
        have advances := isBody.advance_eq within shape
        split
        next =>
          rw [advances, except_ok_bind]
          refine (additive_agrees isBody steps (index + 1) within (by omega)).bind
            fun argument middle further bound => ?_
          refine (furtherArguments_agrees isBody steps middle bound (by omega)).map
            fun others last later closed => ?_
          exact Agrees.stay (by omega) closed
        next =>
          split
          next =>
            rw [advances, except_ok_bind]
            exact Agrees.stay (Nat.le_refl _) within
          next => rfl
termination_by steps

end

end Parser

end ExprCalculus
