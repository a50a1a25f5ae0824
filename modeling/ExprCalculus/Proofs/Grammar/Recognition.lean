import ExprCalculus.Proofs.Grammar.Completeness
import ExprCalculus.Proofs.Grammar.Soundness
import ExprCalculus.Proofs.Scanning.Runs

/-!
# Recognition of expressions

The scanner emits lexemes with one end token after them, and on such a list the
reader recognises the grammar: it returns a tree exactly if the lexemes keep
operators apart and form a sum with that tree, and it reports a grammatical
error otherwise.  As the reader returns at most one tree, the grammar is
unambiguous on these lists.
-/

namespace ExprCalculus

namespace Token

theorem isLexeme_ofName {name : String} (nonempty : name ≠ "") (position : Nat) :
    (ofName name position).IsLexeme := by
  unfold ofName
  dsimp only
  split
  next known => exact known
  next =>
    split
    next reserved => exact List.contains_iff_mem.mp reserved
    next => exact nonempty

/-- The signs among the characters with a token of their own are those of the
operators. -/
theorem isLexeme_single {character : Char} {kind : Kind} {text : String}
    (found : single? character = some (kind, text)) (position : Int) :
    (⟨kind, text, position⟩ : Token).IsLexeme := by
  unfold single? at found
  split at found
  next sign =>
    cases found
    have listed : character ∈ ['+', '-', '*', '/', '^', '%'] := by
      rw [List.contains_iff_mem] at sign
      exact sign
    simp only [List.mem_cons, List.not_mem_nil, or_false] at listed
    rcases listed with rfl | rfl | rfl | rfl | rfl | rfl
    · exact ⟨.add, rfl, rfl⟩
    · exact ⟨.subtract, rfl, rfl⟩
    · exact ⟨.multiply, rfl, rfl⟩
    · exact ⟨.divide, rfl, rfl⟩
    · exact ⟨.power, rfl, rfl⟩
    · exact ⟨.modulo, rfl, rfl⟩
  next =>
    repeat' split at found
    all_goals cases found
    all_goals trivial

theorem isLexeme_first {position : Nat} {character : Char} {rest after : List Char}
    {token : Token} {length : Nat}
    (found : first position character rest = .ok (token, length, after)) :
    token.IsLexeme := by
  simp only [first] at found
  split at found
  · split at found
    next readable =>
      cases found
      simpa [IsLexeme, Decimal.read?] using readable
    next => cases found
  split at found
  · cases found
    refine isLexeme_ofName ?_ position
    intro empty
    have noCharacters := congrArg String.toList empty
    simp at noCharacters
  split at found
  next single =>
    cases found
    exact isLexeme_single single position
  next => cases found

/-- The tokens before the end of a scanned text, and the end. -/
structure Emitted (body : List Token) (stop : Token) : Prop where
  lexemes : ∀ token ∈ body, token.IsLexeme
  finished : stop.kind = .finish

theorem exists_emitted_of_scanFrom (position : Nat) (characters : List Char)
    {tokens : List Token} (scanned : scanFrom position characters = .ok tokens) :
    ∃ body stop, tokens = body ++ [stop] ∧ Emitted body stop := by
  induction scanned using scanFrom_induction with
  | finish position => exact ⟨[], _, rfl, by simp, rfl⟩
  | blank _ _ ih => exact ih
  | @token _ _ _ token _ _ _ _ found _ ih =>
      obtain ⟨body, stop, rfl, emitted⟩ := ih
      refine ⟨token :: body, stop, rfl, ?_, emitted.finished⟩
      exact List.forall_mem_cons.mpr ⟨isLexeme_first found, emitted.lexemes⟩

namespace Emitted

variable {body : List Token} {stop : Token}

theorem not_finish (emitted : Emitted body stop) :
    ∀ token ∈ body, token.kind ≠ .finish := by
  intro token member kind
  have lexeme := emitted.lexemes token member
  simp [IsLexeme, kind] at lexeme

/-- The reader works on the tokens before the end, with the end for its messages. -/
theorem outcome_ofTokens (emitted : Emitted body stop) (nonempty : body ≠ []) :
    (Expr.ofTokens (body ++ [stop])).outcome =
      (Parser.stepResult (Parser.additive stop body)).bind fun result =>
        match result.2 with
        | [] => .ok result.1
        | token :: _ => .error (.grammatical ⟨.expectedEnd, token⟩) := by
  have atEnd : Parser.endToken (body ++ [stop]) = stop := by
    have found : (body ++ [stop]).find? (·.kind = .finish) = some stop := by
      rw [List.find?_append, List.find?_eq_none.mpr (by simpa using emitted.not_finish)]
      simp [emitted.finished]
    rw [Parser.endToken, found]
  have before : (body ++ [stop]).takeWhile (·.kind ≠ .finish) = body := by
    rw [List.takeWhile_append_of_pos (by simpa using emitted.not_finish)]
    simp [emitted.finished]
  exact Parser.outcome_ofTokens before atEnd nonempty

theorem outcome_ofTokens_nil (emitted : Emitted [] stop) :
    (Expr.ofTokens ([] ++ [stop])).outcome = .error (.grammatical ⟨.empty, stop⟩) := by
  simp [Expr.ofTokens, Parser.endToken, emitted.finished, Parser.failAt]

end Emitted

end Token

namespace Grammar

/-- The whole of the tokens is a sum, and operators are kept apart. -/
structure Sentence (body : List Token) (tree : Expr Float) : Prop where
  derives : Derives .additive body [] tree
  apart : body.IsChain MayFollow

namespace Sentence

variable {body : List Token} {stop : Token} {tree : Expr Float}

theorem nonempty (sentence : Sentence body tree) : body ≠ [] := by
  rintro rfl
  obtain ⟨start, consumed, -, shape⟩ := sentence.derives.consumes
  cases shape

/-- The reader returns the tree of a sentence. -/
theorem outcome (emitted : Token.Emitted body stop) (sentence : Sentence body tree) :
    (Expr.ofTokens (body ++ [stop])).outcome = .ok tree := by
  have read := Parser.completes stop sentence.derives ⟨emitted.lexemes, sentence.apart⟩ endsSum_nil.1
  rw [Parser.additiveTail_of_endsSum stop tree endsSum_nil] at read
  rw [emitted.outcome_ofTokens sentence.nonempty, read]
  rfl

/-- The reader returns the tree of a sentence or reports a grammatical error. -/
theorem or_grammatical (emitted : Token.Emitted body stop) :
    (∃ tree, (Expr.ofTokens (body ++ [stop])).outcome = .ok tree ∧ Sentence body tree) ∨
      ∃ problem, (Expr.ofTokens (body ++ [stop])).outcome = .error (.grammatical problem) := by
  by_cases nonempty : body = []
  · subst nonempty
    exact .inr ⟨_, emitted.outcome_ofTokens_nil⟩
  have meets := Parser.additive_meets stop body
  rw [emitted.outcome_ofTokens nonempty]
  cases result : Parser.stepResult (Parser.additive stop body) with
  | error problem =>
      rw [result] at meets
      obtain ⟨cause, rfl⟩ := meets emitted.lexemes
      exact .inr ⟨cause, rfl⟩
  | ok read =>
      rw [result] at meets
      obtain ⟨tree, rest⟩ := read
      cases rest with
      | nil => exact .inl ⟨tree, rfl, meets.derives, meets.apart.isChain⟩
      | cons token rest => exact .inr ⟨_, rfl⟩

end Sentence

end Grammar

open Grammar

/-- The reader recognises the grammar: every scanned text is a list of lexemes
and an end token, and on such a list the reader returns exactly the trees of the
sentences, and reports a grammatical error if there is none. -/
theorem reader_recognizes_grammar :
    (∀ text tokens, Token.scan text = .ok tokens →
      ∃ body stop, tokens = body ++ [stop] ∧ Token.Emitted body stop) ∧
    ∀ body stop, Token.Emitted body stop →
      (∀ tree, (Expr.ofTokens (body ++ [stop])).outcome = .ok tree ↔
        Derives .additive body [] tree ∧ body.IsChain MayFollow) ∧
      ((¬ ∃ tree, Derives .additive body [] tree ∧ body.IsChain MayFollow) →
        ∃ problem,
          (Expr.ofTokens (body ++ [stop])).outcome = .error (.grammatical problem)) := by
  refine ⟨fun text tokens scanned => Token.exists_emitted_of_scanFrom 0 text.toList scanned, ?_⟩
  intro body stop emitted
  refine ⟨fun tree => ⟨fun read => ?_, fun ⟨derives, apart⟩ => ?_⟩, fun none => ?_⟩
  · rcases Sentence.or_grammatical emitted with ⟨other, readOther, sentence⟩ | ⟨problem, failed⟩
    · rw [read] at readOther
      cases readOther
      exact ⟨sentence.derives, sentence.apart⟩
    · rw [read] at failed
      cases failed
  · exact Sentence.outcome emitted ⟨derives, apart⟩
  · rcases Sentence.or_grammatical emitted with ⟨tree, -, sentence⟩ | failed
    · exact absurd ⟨tree, sentence.derives, sentence.apart⟩ none
    · exact failed

/-- A sign in front binds looser than a power and an exponent may carry one, while
a plus sign after an operator is an error although the grammar alone admits it. -/
theorem reader_recognizes_signed_power :
    let body : List Token :=
      [⟨.operator, "-", 0⟩, ⟨.identifier, "x", 1⟩, ⟨.operator, "^", 2⟩, ⟨.operator, "-", 3⟩,
        ⟨.identifier, "y", 4⟩, ⟨.factorial, "!", 5⟩]
    let doubled : List Token :=
      [⟨.identifier, "x", 0⟩, ⟨.operator, "-", 1⟩, ⟨.operator, "+", 2⟩, ⟨.identifier, "y", 3⟩]
    (∃ emitted stop, body ++ [⟨.finish, "", 6⟩] = emitted ++ [stop] ∧ Token.Emitted emitted stop) ∧
      (Expr.ofTokens (body ++ [⟨.finish, "", 6⟩])).outcome =
        .ok (.unary .negate (.binary .power (.var "x")
          (.unary .negate (.unary .factorial (.var "y"))))) ∧
      ∃ problem, (Expr.ofTokens (doubled ++ [⟨.finish, "", 4⟩])).outcome =
        .error (.grammatical problem) := by
  intro body doubled
  have isMinus (position : Int) : IsSign ⟨.operator, "-", position⟩ .subtract := ⟨rfl, rfl⟩
  have isPower (position : Int) : IsSign ⟨.operator, "^", position⟩ .power := ⟨rfl, rfl⟩
  have scanned : Token.scan "-x^-y!" = .ok (body ++ [⟨.finish, "", 6⟩]) := by
    have same : (Token.scan "-x^-y!").toOption = some (body ++ [⟨.finish, "", 6⟩]) := by
      decide +kernel
    cases result : Token.scan "-x^-y!" with
    | error problem => rw [result] at same; cases same
    | ok tokens => rw [result] at same; cases same; rfl
  refine ⟨reader_recognizes_grammar.1 "-x^-y!" _ scanned, ?_, ?_⟩
  · have emitted : Token.Emitted body ⟨.finish, "", 6⟩ := by
      refine ⟨?_, rfl⟩
      simp [body, Token.IsLexeme, IsSign]
      exact ⟨⟨.subtract, rfl⟩, ⟨.power, rfl⟩, ⟨.subtract, rfl⟩⟩
    refine ((reader_recognizes_grammar.2 body _ emitted).1 _).mpr ⟨?_, ?_⟩
    · refine .product (.factor (.negation (isMinus 0) (.unsigned ?_)))
      refine .raised (.unmarked (.variableName rfl ?_)) (isPower 2) ?_
      · simp
      · refine .negation (isMinus 3) (.unsigned (.base ?_))
        refine .factorial (.unmarked (.variableName rfl ?_)) ?_
        · simp
        · rfl
    · simp [body, MayFollow]
  · have emitted : Token.Emitted doubled ⟨.finish, "", 4⟩ := by
      refine ⟨?_, rfl⟩
      simp [doubled, Token.IsLexeme, IsSign]
      exact ⟨⟨.subtract, rfl⟩, ⟨.add, rfl⟩⟩
    refine (reader_recognizes_grammar.2 doubled _ emitted).2 ?_
    rintro ⟨tree, -, apart⟩
    simp [doubled, MayFollow] at apart

end ExprCalculus
