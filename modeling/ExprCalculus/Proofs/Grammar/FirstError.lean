import ExprCalculus.Proofs.Grammar.Cursor
import ExprCalculus.Proofs.Grammar.Recognition
import ExprCalculus.Proofs.Printing.Scanning

/-!
# The first impossible token

On any list of tokens, with or without an end token and with any tokens after it, the reader
looks only at the tokens up to the first end token, one of which closes the list if it has to.
It ends with a tree or with a grammatical error, and unless that is a wrong number of arguments,
the token that it reports is the first one with which no outline goes on.
-/

namespace ExprCalculus

namespace Token

/-- The text of a number, a constant, a function or an identifier is one that the scanner emits
for the kind. -/
def IsEmittable (token : Token) : Prop :=
  token.kind ∈ [Kind.number, .constant, .function, .identifier] →
    ∃ text tokens other, scan text = .ok tokens ∧ other ∈ tokens ∧ other.kind = token.kind ∧
      other.text = token.text

/-- What the scanner emits fits its kind. -/
theorem IsEmittable.fits {token : Token} (emittable : token.IsEmittable) : token.Fits := by
  intro listed
  obtain ⟨text, tokens, other, scanned, member, sameKind, sameText⟩ := emittable listed
  obtain ⟨body, stop, rfl, emitted⟩ := exists_emitted_of_scanFrom 0 text.toList scanned
  rcases List.mem_append.mp member with inBody | atEnd
  · have lexeme := emitted.lexemes other inBody
    simp only [List.mem_cons, List.not_mem_nil, or_false] at listed
    rcases listed with kind | kind | kind | kind <;>
      simpa only [IsLexeme, sameKind, sameText, kind] using lexeme
  · rw [List.mem_singleton.mp atEnd, emitted.finished] at sameKind
    rw [← sameKind] at listed
    exact absurd listed (by decide)

end Token

namespace Grammar

theorem fillers_emittable : ∀ filler ∈ fillers, filler.IsEmittable := by
  have isName : Token.ofName (String.ofList ['x']) 0 = ⟨.identifier, "x", 0⟩ := by decide +kernel
  have scans := @Token.scans_name ['x'] (by decide) 0
  rw [isName] at scans
  have scanned := @Token.Scans.scan_eq _ _ "x" scans (by simp [Token.Separates])
  intro filler member listed
  simp only [fillers, List.mem_cons, List.not_mem_nil, or_false] at member
  rcases member with rfl | rfl | rfl
  · exact ⟨"x", _, _, scanned, List.mem_cons_self, rfl, rfl⟩
  · exact absurd listed (by decide)
  · exact absurd listed (by decide)

end Grammar

namespace Parser

open Grammar Stage

/-- The tokens before the first end token stand in front of it. -/
theorem isBody_closed (tokens : List Token) :
    IsBody (beforeEnd tokens) (closed tokens) (endToken tokens) := by
  have noEnd : ∀ token ∈ beforeEnd tokens, token.kind ≠ .finish := fun token member =>
    of_decide_eq_true (List.all_eq_true.mp List.all_takeWhile token member)
  have closes : closed tokens = tokens ∨ ∃ stop, closed tokens = tokens ++ [stop] := by
    rw [closed]
    split
    · exact .inl rfl
    · exact .inr ⟨_, rfl⟩
  cases found : tokens.find? (·.kind = .finish) with
  | some stop =>
      obtain ⟨isEnd, before, after, rfl, unended⟩ := List.find?_eq_some_iff_append.mp found
      have finished : stop.kind = .finish := of_decide_eq_true isEnd
      have isBefore : beforeEnd (before ++ stop :: after) = before := by
        rw [beforeEnd_append fun token member => by simpa using unended token member, beforeEnd,
          List.takeWhile_cons_of_neg (by simp [finished]), List.append_nil]
      rw [isBefore] at noEnd ⊢
      rw [endToken, found]
      refine ⟨?_, finished, noEnd⟩
      rcases closes with same | ⟨stop, same⟩
      · exact ⟨after, same⟩
      · exact ⟨after ++ [stop], by rw [same, List.append_assoc, List.cons_append]⟩
  | none =>
      have unended : ∀ token ∈ tokens, token.kind ≠ .finish := by
        simpa using List.find?_eq_none.mp found
      have whole : beforeEnd tokens = tokens := by
        have split := @beforeEnd_append tokens [] unended
        rw [List.append_nil] at split
        rw [split]
        exact List.append_nil tokens
      rw [whole, endToken, found]
      refine ⟨⟨[], ?_⟩, rfl, unended⟩
      rw [closed, if_neg]
      intro isEnd
      obtain ⟨last, isLast, kind⟩ := Option.map_eq_some_iff.mp isEnd
      exact unended last (List.mem_of_mem_getLast? isLast) kind

/-- The tokens before the end are an outline that was read, or the next token is reported. -/
theorem ofTokens_settles {tokens : List Token} (nonempty : beforeEnd tokens ≠ []) :
    Settles (endToken tokens) Stage.start (beforeEnd tokens) (Outlines .additive)
      (fun _ => Accepts tokens) (Expr.ofTokens tokens).outcome := by
  have isBody := isBody_closed tokens
  rw [@outcome_ofTokens tokens (beforeEnd tokens) _ rfl rfl nonempty]
  refine (additive_settles (endToken tokens) isBody.finished false [] (beforeEnd tokens)
    (starts_false _)).bind ?_
  rintro ⟨tree, rest⟩ ⟨⟨consumed, shape, reached⟩, ends⟩
  cases rest with
  | nil =>
      obtain ⟨_, leads, -⟩ := reached.leads
      rw [List.append_nil] at shape
      exact ⟨shape ▸ reached.outlines, shape ▸ isChain_of_leads leads⟩
  | cons token after =>
      -- The sum ends before the end of the tokens, and nothing goes on with the next one.
      have inside : token.kind ≠ .finish := isBody.noEnd token (by simp [shape])
      rw [shape]
      exact @Reached.blames _ _ _ consumed (token :: after) (endToken tokens) _ _ _ _ reached
        (fun _ notCall => blocks_of_endsSum isBody.finished ends notCall (fun _ => rfl)
          (fun _ => rfl) fun kind => absurd kind inside)
        ⟨[], List.nil_subset _, by rw [List.append_nil]; exact reached.outlines⟩

/-- Without a token before the end there is no expression. -/
theorem outcome_ofTokens_empty {tokens : List Token} (empty : beforeEnd tokens = []) :
    (Expr.ofTokens tokens).outcome = .error (.grammatical ⟨.empty, endToken tokens⟩) := by
  have noBody : tokens.takeWhile (·.kind ≠ .finish) = [] := empty
  unfold Expr.ofTokens
  dsimp only
  rw [noBody]
  rfl

/-- Reading by index in enough steps finds what the reader returns. -/
theorem parse_eq (tokens : List Token) (steps : Nat) (enough : 10 * tokens.length + 6 < steps) :
    Cursor.parse tokens steps = Cursor.report (Expr.ofTokens tokens).outcome := by
  have isBody := isBody_closed tokens
  have lookup := isBody.tokenAt_eq (Nat.zero_le _)
  rw [Cursor.parse, lookup, except_ok_bind, List.drop_zero]
  by_cases empty : beforeEnd tokens = []
  · rw [empty, List.headD_nil, if_pos isBody.finished, outcome_ofTokens_empty empty]
    rfl
  · obtain ⟨first, others, shape⟩ := List.exists_cons_of_ne_nil empty
    have firstInside : first ∈ beforeEnd tokens := shape ▸ List.mem_cons_self
    have shorter : (beforeEnd tokens).length ≤ tokens.length := (List.takeWhile_sublist _).length_le
    have agrees := additive_agrees isBody steps 0 (Nat.zero_le _) (by omega)
    rw [shape, List.headD_cons, if_neg (isBody.noEnd first firstInside),
      @outcome_ofTokens tokens (beforeEnd tokens) _ rfl rfl empty]
    rw [List.drop_zero] at agrees
    cases read : stepResult (additive (endToken tokens) (beforeEnd tokens)) with
    | error problem =>
        rw [read] at agrees
        have isFound : Cursor.additive (closed tokens) steps 0 = .error (.reported problem) :=
          agrees
        rw [isFound]
        rfl
    | ok result =>
        obtain ⟨tree, rest⟩ := result
        rw [read] at agrees
        obtain ⟨index, isFound, isRest, -, inside⟩ := agrees
        rw [isFound, except_ok_bind]
        dsimp only
        rw [isBody.tokenAt_eq inside, except_ok_bind, ← isRest]
        cases rest with
        | nil =>
            rw [List.headD_nil, if_pos isBody.finished]
            rfl
        | cons token after =>
            have member : token ∈ beforeEnd tokens :=
              List.mem_of_mem_drop (isRest ▸ List.mem_cons_self)
            rw [List.headD_cons, if_neg (isBody.noEnd token member)]
            rfl

end Parser

open Grammar

/-- Nothing after an end token matters. -/
theorem Parser.ofTokens_append (body after : List Token) {stop : Token}
    (finished : stop.kind = .finish) :
    Expr.ofTokens (body ++ stop :: after) = Expr.ofTokens (body ++ [stop]) := by
  have isEnd (following : List Token) :
      (body ++ stop :: following).find? (·.kind = .finish) =
        (body.find? (·.kind = .finish)).or (some stop) := by
    rw [List.find?_append, List.find?_cons_of_pos (by simp [finished])]
  have isBody (following : List Token) :
      (body ++ stop :: following).takeWhile (·.kind ≠ .finish) =
        body.takeWhile (·.kind ≠ .finish) := by
    rw [List.takeWhile_append, List.takeWhile_cons_of_neg (by simp [finished])]
    split
    next whole =>
      rw [List.append_nil]
      exact ((List.takeWhile_prefix _).eq_of_length whole).symm
    next => rfl
  have sameEnd : Parser.endToken (body ++ stop :: after) = Parser.endToken (body ++ [stop]) := by
    unfold Parser.endToken
    rw [isEnd, isEnd]
    cases body.find? (·.kind = .finish) <;> rfl
  unfold Expr.ofTokens
  dsimp only
  rw [sameEnd, isBody, isBody]

/-- What a blamed token says about the whole list. -/
theorem Grammar.Blames.impossible {tokens body : List Token} {stop token : Token}
    (blames : Blames stop Stage.start body (Outlines .additive) token)
    (split : ∃ after, tokens = body ++ stop :: after) :
    ∃ before after, tokens = before ++ token :: after ∧
      (∃ rest, (∀ other ∈ rest, other.IsEmittable) ∧ Accepts (before ++ rest)) ∧
      ∀ rest, ¬ Accepts (before ++ token :: rest) := by
  obtain ⟨before, after, reached, completion, isBody, leads, blocks, filling, outline⟩ := blames
  obtain ⟨following, rfl⟩ := split
  refine ⟨before, after ++ following, ?_, ⟨completion, fun other member => ?_, ?_⟩,
    not_accepts_append leads blocks⟩
  · rw [List.append_cons, isBody, List.append_assoc, List.cons_append]
  · exact fillers_emittable other (filling member)
  · exact accepts_append leads filling outline

/-- The reader is safe on every list of tokens, and reports the first impossible one.  Read by
index in a number of steps that grows with their number, the tokens are never looked at outside
the list; what comes after the first end token does not matter.  With texts that the scanner
emits, the reader returns a tree or reports a grammatical error, and unless a number of arguments
is wrong, the tokens before the reported one are the front of accepted ones, while nothing that
is accepted goes on with the reported one. -/
theorem reader_reports_first_impossible_token :
    (∀ tokens steps, 10 * tokens.length + 6 < steps →
      Parser.Cursor.parse tokens steps =
        Parser.Cursor.report (Expr.ofTokens tokens).outcome) ∧
    (∀ body stop after, stop.kind = .finish →
      Expr.ofTokens (body ++ stop :: after) = Expr.ofTokens (body ++ [stop])) ∧
    ∀ tokens, (∀ token ∈ tokens, token.IsEmittable) →
      (∃ tree, (Expr.ofTokens tokens).outcome = .ok tree ∧ Accepts tokens) ∨
      ∃ problem, (Expr.ofTokens tokens).outcome = .error (.grammatical problem) ∧
        (problem.IsArity ∨ ∃ before after,
          Parser.closed tokens = before ++ problem.token :: after ∧
          (∃ rest, (∀ token ∈ rest, token.IsEmittable) ∧ Accepts (before ++ rest)) ∧
          ∀ rest, ¬ Accepts (before ++ problem.token :: rest)) := by
  refine ⟨Parser.parse_eq, fun body stop after => Parser.ofTokens_append body after,
    fun tokens emittable => ?_⟩
  have isBody := Parser.isBody_closed tokens
  by_cases empty : beforeEnd tokens = []
  · have blames : Blames (Parser.endToken tokens) Stage.start [] (Outlines .additive)
        (Parser.endToken tokens) :=
      .head (Parser.blocks_of_finish isBody.finished) (outlines_filler .additive)
    refine .inr ⟨⟨.empty, Parser.endToken tokens⟩, Parser.outcome_ofTokens_empty empty, .inr ?_⟩
    exact blames.impossible (empty ▸ isBody.split)
  · have settles := Parser.ofTokens_settles empty
    cases result : (Expr.ofTokens tokens).outcome with
    | ok tree =>
        rw [result] at settles
        exact .inl ⟨tree, rfl, settles⟩
    | error error =>
        rw [result] at settles
        obtain ⟨problem, rfl, blame⟩ := settles fun token member =>
          (emittable token (List.takeWhile_subset _ member)).fits
        exact .inr ⟨problem, rfl, blame.imp_right fun blames => blames.impossible isBody.split⟩

/-- A parenthesis is reported after an operator, whatever comes after the end token. -/
theorem reader_reports_missing_operand :
    let front : List Token := [⟨.function, "sin", 0⟩, ⟨.leftParenthesis, "(", 3⟩,
      ⟨.identifier, "x", 4⟩, ⟨.operator, "+", 5⟩]
    let closing : Token := ⟨.rightParenthesis, ")", 6⟩
    let stop : Token := ⟨.finish, "", 7⟩
    let tokens := (front ++ [closing]) ++ [stop, ⟨.number, "3", 8⟩]
    let problem : ParseError := ⟨.expectedOperand "+", closing⟩
    10 * tokens.length + 6 < 77 ∧
      Parser.Cursor.parse tokens 77 = .error (.reported (.grammatical problem)) ∧
      stop.kind = .finish ∧
      Expr.ofTokens tokens = Expr.ofTokens ((front ++ [closing]) ++ [stop]) ∧
      (∀ token ∈ tokens, token.IsEmittable) ∧
      ∃ before after, Parser.closed tokens = before ++ closing :: after ∧
        (∃ rest, (∀ token ∈ rest, token.IsEmittable) ∧ Accepts (before ++ rest)) ∧
        ∀ rest, ¬ Accepts (before ++ closing :: rest) := by
  intro front closing stop tokens problem
  obtain ⟨byIndex, ignores, reports⟩ := reader_reports_first_impossible_token
  have parsed : Parser.Cursor.parse tokens 77 = .error (.reported (.grammatical problem)) := rfl
  have outcome : (Expr.ofTokens tokens).outcome = .error (.grammatical problem) := by
    have reported := (byIndex tokens 77 (by decide)).symm.trans parsed
    cases result : (Expr.ofTokens tokens).outcome with
    | ok tree => rw [result] at reported; cases reported
    | error error => rw [result] at reported; cases reported; rfl
  have scanned : Token.scan "sin x 3" = .ok [⟨.function, "sin", 0⟩, ⟨.identifier, "x", 4⟩,
      ⟨.number, "3", 6⟩, ⟨.finish, "", 7⟩] := by
    have same : (Token.scan "sin x 3").toOption = some [⟨.function, "sin", 0⟩,
        ⟨.identifier, "x", 4⟩, ⟨.number, "3", 6⟩, ⟨.finish, "", 7⟩] := by
      decide +kernel
    cases result : Token.scan "sin x 3" with
    | error problem => rw [result] at same; cases same
    | ok tokens => rw [result] at same; cases same; rfl
  have emittable : ∀ token ∈ tokens, token.IsEmittable := by
    intro token member listed
    simp only [tokens, front, List.cons_append, List.nil_append, List.mem_cons, List.not_mem_nil,
      or_false] at member
    rcases member with rfl | rfl | rfl | rfl | rfl | rfl | rfl
    · exact ⟨_, _, _, scanned, List.mem_cons_self, rfl, rfl⟩
    · exact absurd listed (by decide)
    · exact ⟨_, _, _, scanned, List.mem_cons_of_mem _ List.mem_cons_self, rfl, rfl⟩
    · exact absurd listed (by decide)
    · exact absurd listed (by decide)
    · exact absurd listed (by decide)
    · exact ⟨_, _, ⟨.number, "3", 6⟩, scanned, by simp, rfl, rfl⟩
  refine ⟨by decide, parsed, rfl, ignores (front ++ [closing]) stop _ rfl, emittable, ?_⟩
  rcases reports tokens emittable with ⟨tree, read, -⟩ | ⟨other, failed, blame⟩
  · rw [outcome] at read
    cases read
  · rw [outcome] at failed
    cases failed
    rcases blame with ⟨expected, actual, isArity⟩ | impossible
    · cases isArity
    · exact impossible

end ExprCalculus
