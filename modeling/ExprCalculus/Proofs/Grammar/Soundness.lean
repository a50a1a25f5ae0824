import ExprCalculus.Proofs.Grammar.ReaderSteps

/-!
# What the reader accepts derives from the grammar

Every step of the reader that succeeds has a derivation behind it, and among the
tokens that it consumes no operator is followed by an operator other than the
minus sign.  On lexemes a step that fails reports a grammatical error.  Both are
shown together, by the recursion of the reader.
-/

namespace ExprCalculus

namespace Grammar

/-- The tokens in front of the rest keep operators apart, and the last of them is
no operator. -/
def KeepsApart (tokens rest : List Token) : Prop :=
  ∃ initial last, tokens = initial ++ last :: rest ∧
    (initial ++ [last]).IsChain MayFollow ∧ last.kind ≠ .operator

namespace KeepsApart

theorem single {token : Token} (kind : token.kind ≠ .operator) (rest : List Token) :
    KeepsApart (token :: rest) rest :=
  ⟨[], token, rfl, by simp, kind⟩

theorem trans {tokens middle rest : List Token}
    (first : KeepsApart tokens middle) (second : KeepsApart middle rest) :
    KeepsApart tokens rest := by
  obtain ⟨initial, last, rfl, chain, notOperator⟩ := first
  obtain ⟨later, final, rfl, laterChain, finalNotOperator⟩ := second
  refine ⟨initial ++ last :: later, final, by simp, ?_, finalNotOperator⟩
  have joined : ((initial ++ [last]) ++ (later ++ [final])).IsChain MayFollow := by
    refine List.IsChain.append chain laterChain ?_
    intro token tokenLast next _
    rw [List.getLast?_concat, Option.mem_some] at tokenLast
    subst tokenLast
    exact fun operator => absurd operator notOperator
  simpa using joined

/-- An operator in front, if the next token may follow it. -/
theorem under {token : Token} {middle rest : List Token}
    (follows : ∀ next ∈ middle.head?, MayFollow token next)
    (apart : KeepsApart middle rest) : KeepsApart (token :: middle) rest := by
  obtain ⟨initial, last, rfl, chain, notOperator⟩ := apart
  refine ⟨token :: initial, last, rfl, ?_, notOperator⟩
  cases initial with
  | nil => simpa using follows last
  | cons head others =>
      refine List.IsChain.cons_cons ?_ chain
      exact follows head rfl

theorem isChain {tokens : List Token} (apart : KeepsApart tokens []) :
    tokens.IsChain MayFollow := by
  obtain ⟨initial, last, rfl, chain, -⟩ := apart
  exact chain

end KeepsApart

/-- A derivation whose tokens keep operators apart. -/
structure Reads (phrase : Phrase) (tokens rest : List Token) (tree : Expr Float) :
    Prop where
  derives : Derives phrase tokens rest tree
  apart : KeepsApart tokens rest

/-- A derivation of arguments whose tokens keep operators apart. -/
structure ReadsArguments (tokens rest : List Token) (first : Expr Float)
    (others : List (Expr Float)) : Prop where
  derives : DerivesArguments tokens rest first others
  apart : KeepsApart tokens rest

end Grammar

namespace Parser

open Grammar

/-- A result is good, or it is a grammatical error unless some token is no lexeme. -/
def Meets {β : Type} (tokens : List Token) (good : β → Prop) :
    Except ReadError β → Prop
  | .ok value => good value
  | .error error =>
      (∀ token ∈ tokens, token.IsLexeme) → ∃ problem, error = .grammatical problem

namespace Meets

variable {β γ : Type} {tokens : List Token} {good : β → Prop}

theorem grammatical (problem : ParseError) :
    Meets tokens good (.error (.grammatical problem)) :=
  fun _ => ⟨problem, rfl⟩

theorem mono {middle : List Token} {better : β → Prop} {result : Except ReadError β}
    (meets : Meets middle better result) (suffix : middle <:+ tokens)
    (implies : ∀ value, better value → good value) : Meets tokens good result := by
  cases result with
  | ok value => exact implies value meets
  | error error =>
      exact fun lexemes => meets fun token member => lexemes token (suffix.subset member)

theorem bind {result : Except ReadError β} {further : β → Except ReadError γ}
    {best : γ → Prop} (meets : Meets tokens good result)
    (continues : ∀ value, good value → Meets tokens best (further value)) :
    Meets tokens best (result.bind further) := by
  cases result with
  | ok value => exact continues value meets
  | error error => exact meets

theorem map {result : Except ReadError β} {image : β → γ} {best : γ → Prop}
    (meets : Meets tokens good result) (implies : ∀ value, good value → best (image value)) :
    Meets tokens best (result.map image) := by
  cases result with
  | ok value => exact implies value meets
  | error error => exact meets

end Meets

theorem requireOperand_meets (stop : Token) (token : Token) (tokens : List Token) :
    Meets (token :: tokens) (fun _ => ∀ next ∈ tokens.head?, MayFollow token next)
      (requireOperand stop token.text tokens).outcome := by
  unfold requireOperand
  dsimp only
  split
  next admitted =>
    intro next isNext _ operator
    cases tokens with
    | nil => simp at isNext
    | cons head others =>
        cases isNext
        simpa [mayFollowOperator, operator] using admitted
  next => exact Meets.grammatical _

/-- Every reserved name of a function is the word of an operator on one operand,
or one of the four names that take arguments of their own. -/
theorem functionWords_known :
    ∀ word ∈ Token.functionWords, word = "log" ∨ word = "pow" ∨ word = "min" ∨
      word = "max" ∨ (UnaryOperator.ofWord? word).isSome := by
  decide

/-- A call of a reserved name with the right number of arguments is read, and with
any other number it has a wrong arity. -/
theorem reservedCall_meets (token : Token) (rest : List Token)
    (kind : token.kind = .function) (first : Expr Float) (others : List (Expr Float)) :
    Meets (token :: rest) (KeywordCall token.text first others)
      (reservedCall token first others).outcome := by
  unfold reservedCall
  dsimp only
  split
  next named =>
    rw [named]
    match others with
    | [] => exact .naturalLogarithm first
    | [base] => exact .logarithm first base
    | _ :: _ :: _ => exact Meets.grammatical _
  next notLogarithm =>
    split
    next named =>
      simp only [Bool.or_eq_true, decide_eq_true_eq] at named
      match others with
      | [] => exact Meets.grammatical _
      | _ :: _ :: _ => exact Meets.grammatical _
      | [second] =>
          rcases named with (named | named) | named <;> rw [named]
          · exact .power first second
          · exact .minimum first second
          · exact .maximum first second
    next notBinary =>
      simp only [Bool.or_eq_true, decide_eq_true_eq, not_or] at notBinary
      match others with
      | _ :: _ => exact Meets.grammatical _
      | [] =>
          cases known : UnaryOperator.ofWord? token.text with
          | some operator => exact .unary first known
          | none =>
              intro lexemes
              have reserved := lexemes token List.mem_cons_self
              simp only [Token.IsLexeme, kind] at reserved
              have cases := functionWords_known token.text reserved
              simp [notLogarithm, notBinary, known] at cases

/-- A call of any other name is read. -/
theorem furtherCall_meets (token : Token) (rest : List Token)
    (first : Expr Float) (others : List (Expr Float)) :
    Meets (token :: rest) (NamedCall token.text first others)
      (furtherCall token first others).outcome := by
  by_cases marker : Text.toLower token.text = "integral" ∧ ∃ bound, others = [.var bound]
  · obtain ⟨named, bound, rfl⟩ := marker
    have read : (furtherCall token first [.var bound]).outcome = .ok (.integral first bound) := by
      simp only [furtherCall, named, decide_true]
      rfl
    rw [read]
    exact .marker first bound named
  · have read : (furtherCall token first others).outcome =
        .ok (.call (Text.toLower token.text) first others) := by
      unfold furtherCall
      dsimp only
      split
      next _ _ bound named =>
        exact absurd ⟨of_decide_eq_true named, bound, rfl⟩ marker
      next => rfl
    rw [read]
    exact .call first others fun bound named shape => marker ⟨named, bound, shape⟩

theorem callOf_meets {token : Token} (rest : List Token)
    (kind : token.kind = .function ∨ token.kind = .identifier)
    (first : Expr Float) (others : List (Expr Float)) :
    Meets (token :: rest)
      (fun tree => (token.kind = .function ∧ KeywordCall token.text first others tree) ∨
        (token.kind = .identifier ∧ NamedCall token.text first others tree))
      (callOf token first others) := by
  unfold callOf
  rcases kind with kind | kind
  · rw [if_pos kind]
    exact (reservedCall_meets token rest kind first others).mono List.suffix_rfl
      fun tree made => .inl ⟨kind, made⟩
  · rw [if_neg (by simp [kind])]
    exact (furtherCall_meets token rest first others).mono List.suffix_rfl
      fun tree made => .inr ⟨kind, made⟩

theorem variableOf_meets (token : Token) (rest : List Token) (kind : token.kind = .identifier) :
    Meets (token :: rest) (fun tree => tree = .var token.text) (variableOf token).outcome := by
  simp only [variableOf, Expr.var?, Traced.outcome_ofExcept]
  split
  next empty =>
    intro lexemes
    have named := lexemes token List.mem_cons_self
    simp only [Token.IsLexeme, kind] at named
    exact absurd (String.isEmpty_iff.mp empty) named
  next => rfl

theorem closing_meets (stop : Token) (tokens : List Token) :
    Meets tokens (fun closed => ∃ token, token.kind = .rightParenthesis ∧
        tokens = token :: closed.rest)
      (closing stop tokens).outcome := by
  cases tokens with
  | nil => exact Meets.grammatical _
  | cons token rest =>
      rw [closing]
      split
      next kind => exact ⟨token, kind, rfl⟩
      next => exact Meets.grammatical _

theorem exists_opening {rest : List Token}
    (opens : ∃ opening ∈ rest.head?, opening.kind = .leftParenthesis) :
    ∃ opening inner, rest = opening :: inner ∧ opening.kind = .leftParenthesis := by
  obtain ⟨opening, isHead, kind⟩ := opens
  cases rest with
  | nil => simp at isHead
  | cons head inner =>
      cases isHead
      exact ⟨opening, inner, rfl, kind⟩

/-- Factorial marks extend the expression that was read before them. -/
theorem Reads.marked {start tokens : List Token} {operand : Expr Float}
    (reads : Reads .postfixed start tokens operand) :
    Reads .postfixed start (marked operand tokens).2 (marked operand tokens).1 := by
  induction tokens generalizing operand with
  | nil => exact reads
  | cons token rest ih =>
      unfold Parser.marked factorialMarks
      split
      next mark =>
        refine ih ⟨.factorial reads.derives mark, reads.apart.trans (.single ?_ rest)⟩
        simp [mark]
      next => exact reads

variable (stop : Token)

mutual

theorem additive_meets (tokens : List Token) :
    Meets tokens (fun (tree, rest) => Reads .additive tokens rest tree)
      (stepResult (additive stop tokens)) := by
  rw [stepResult_additive]
  refine (multiplicative_meets tokens).bind ?_
  rintro ⟨left, middle⟩ reads
  have shorter := reads.derives.consumes.length_lt
  exact (additiveTail_meets tokens left middle ⟨.product reads.derives, reads.apart⟩).mono
    reads.derives.consumes.suffix fun _ found => found
termination_by (tokens.length, 6)

theorem additiveTail_meets (start : List Token) (left : Expr Float) (tokens : List Token)
    (before : Reads .additive start tokens left) :
    Meets tokens (fun (tree, rest) => Reads .additive start rest tree)
      (extensionResult (additiveTail stop left tokens)) := by
  match tokens with
  | [] =>
      rw [extensionResult_additiveTail_nil]
      exact before
  | token :: rest =>
      rw [extensionResult_additiveTail_cons]
      cases isSum : additiveOperator? token with
      | none => exact before
      | some operator =>
          rw [additiveOperator?_eq_some] at isSum
          refine (requireOperand_meets stop token rest).bind fun _ follows => ?_
          refine Meets.mono ?_ (List.suffix_cons token rest) fun _ found => found
          refine (multiplicative_meets rest).bind ?_
          rintro ⟨right, after⟩ reads
          have shorter := reads.derives.consumes.length_lt
          have longer : Reads .additive start after (.binary operator left right) :=
            ⟨.sum before.derives isSum.1 isSum.2 reads.derives,
              before.apart.trans (.under follows reads.apart)⟩
          exact (additiveTail_meets start (.binary operator left right) after longer).mono
            reads.derives.consumes.suffix fun _ found => found
termination_by (tokens.length, 5)

theorem multiplicative_meets (tokens : List Token) :
    Meets tokens (fun (tree, rest) => Reads .multiplicative tokens rest tree)
      (stepResult (multiplicative stop tokens)) := by
  rw [stepResult_multiplicative]
  refine (signed_meets tokens).bind ?_
  rintro ⟨left, middle⟩ reads
  have shorter := reads.derives.consumes.length_lt
  exact (multiplicativeTail_meets tokens left middle
    ⟨.factor reads.derives, reads.apart⟩).mono
      reads.derives.consumes.suffix fun _ found => found
termination_by (tokens.length, 4)

theorem multiplicativeTail_meets (start : List Token) (left : Expr Float)
    (tokens : List Token) (before : Reads .multiplicative start tokens left) :
    Meets tokens (fun (tree, rest) => Reads .multiplicative start rest tree)
      (extensionResult (multiplicativeTail stop left tokens)) := by
  match tokens with
  | [] =>
      rw [extensionResult_multiplicativeTail_nil]
      exact before
  | token :: rest =>
      rw [extensionResult_multiplicativeTail_cons]
      cases isProduct : multiplicativeOperator? token with
      | none => exact before
      | some operator =>
          rw [multiplicativeOperator?_eq_some] at isProduct
          refine (requireOperand_meets stop token rest).bind fun _ follows => ?_
          refine Meets.mono ?_ (List.suffix_cons token rest) fun _ found => found
          refine (signed_meets rest).bind ?_
          rintro ⟨right, after⟩ reads
          have shorter := reads.derives.consumes.length_lt
          have longer : Reads .multiplicative start after (.binary operator left right) :=
            ⟨.multiple before.derives isProduct.1 isProduct.2 reads.derives,
              before.apart.trans (.under follows reads.apart)⟩
          exact (multiplicativeTail_meets start (.binary operator left right) after
            longer).mono reads.derives.consumes.suffix fun _ found => found
termination_by (tokens.length, 3)

theorem signed_meets (tokens : List Token) :
    Meets tokens (fun (tree, rest) => Reads .unary tokens rest tree)
      (stepResult (signed stop tokens)) := by
  match tokens with
  | [] =>
      rw [stepResult_signed_nil]
      exact (powered_meets []).mono List.suffix_rfl
        fun _ found => ⟨.unsigned found.derives, found.apart⟩
  | token :: rest =>
      rw [stepResult_signed_cons]
      split
      next minus =>
        rw [isOperator_iff_isSign .subtract rfl] at minus
        refine (requireOperand_meets stop token rest).bind fun _ follows => ?_
        refine Meets.mono ?_ (List.suffix_cons token rest) fun _ found => found
        refine (signed_meets rest).map ?_
        rintro ⟨operand, after⟩ reads
        exact ⟨.negation minus reads.derives, .under follows reads.apart⟩
      next =>
        split
        next plus =>
          rw [isOperator_iff_isSign .add rfl] at plus
          refine (requireOperand_meets stop token rest).bind fun _ follows => ?_
          refine (signed_meets rest).mono (List.suffix_cons token rest) ?_
          rintro ⟨operand, after⟩ reads
          exact ⟨.affirmation plus reads.derives, .under follows reads.apart⟩
        next =>
          exact (powered_meets (token :: rest)).mono List.suffix_rfl
            fun _ found => ⟨.unsigned found.derives, found.apart⟩
termination_by (tokens.length, 2)

theorem powered_meets (tokens : List Token) :
    Meets tokens (fun (tree, rest) => Reads .power tokens rest tree)
      (stepResult (powered stop tokens)) := by
  rw [stepResult_powered]
  refine (primary_meets tokens).bind ?_
  rintro ⟨base, middle⟩ reads
  have marks : Reads .postfixed tokens (marked base middle).2 (marked base middle).1 :=
    Reads.marked ⟨.unmarked reads.derives, reads.apart⟩
  have shorter := marks.derives.consumes.length_lt
  exact (exponent_meets tokens (marked base middle).1 (marked base middle).2 marks).mono
    marks.derives.consumes.suffix fun _ found => found
termination_by (tokens.length, 1)

theorem exponent_meets (start : List Token) (base : Expr Float) (tokens : List Token)
    (before : Reads .postfixed start tokens base) :
    Meets tokens (fun (tree, rest) => Reads .power start rest tree)
      (extensionResult (exponent stop base tokens)) := by
  match tokens with
  | [] =>
      rw [extensionResult_exponent_nil]
      exact ⟨.base before.derives, before.apart⟩
  | token :: rest =>
      rw [extensionResult_exponent_cons]
      split
      next isPower =>
        rw [isOperator_iff_isSign .power rfl] at isPower
        refine (requireOperand_meets stop token rest).bind fun _ follows => ?_
        refine Meets.mono ?_ (List.suffix_cons token rest) fun _ found => found
        refine (signed_meets rest).map ?_
        rintro ⟨raised, after⟩ reads
        exact ⟨.raised before.derives isPower reads.derives,
          before.apart.trans (.under follows reads.apart)⟩
      next => exact ⟨.base before.derives, before.apart⟩
termination_by (tokens.length, 0)

theorem primary_meets (tokens : List Token) :
    Meets tokens (fun (tree, rest) => Reads .primary tokens rest tree)
      (stepResult (primary stop tokens)) := by
  match tokens with
  | [] =>
      rw [stepResult_primary_nil]
      exact Meets.grammatical _
  | token :: rest =>
      cases kind : token.kind with
      | number =>
          rw [stepResult_primary_number stop rest kind]
          cases value : Decimal.read? token.text with
          | some number => exact ⟨.number kind value, .single (by simp [kind]) rest⟩
          | none =>
              intro lexemes
              have readable := lexemes token List.mem_cons_self
              simp [Token.IsLexeme, kind, value] at readable
      | constant =>
          rw [stepResult_primary_constant stop rest kind]
          cases value : Token.constantValue? token.text with
          | some number => exact ⟨.constant kind value, .single (by simp [kind]) rest⟩
          | none =>
              intro lexemes
              have known := lexemes token List.mem_cons_self
              simp [Token.IsLexeme, kind, value] at known
      | function =>
          by_cases opens : ∃ opening ∈ rest.head?, opening.kind = .leftParenthesis
          · obtain ⟨opening, inner, rfl, isOpening⟩ := exists_opening opens
            exact call_meets token opening inner (.inl kind) isOpening
          · rw [stepResult_primary_unopened stop rest kind (by simpa using opens)]
            exact Meets.grammatical _
      | identifier =>
          by_cases opens : ∃ opening ∈ rest.head?, opening.kind = .leftParenthesis
          · obtain ⟨opening, inner, rfl, isOpening⟩ := exists_opening opens
            exact call_meets token opening inner (.inr kind) isOpening
          · have notCall : ∀ next ∈ rest.head?, next.kind ≠ .leftParenthesis := by
              simpa using opens
            rw [stepResult_primary_variable stop rest kind notCall]
            refine (variableOf_meets token rest kind).map ?_
            rintro tree rfl
            exact ⟨.variableName kind notCall, .single (by simp [kind]) rest⟩
      | leftParenthesis =>
          rw [stepResult_primary_parenthesis stop rest kind]
          split
          · exact Meets.grammatical _
          refine Meets.mono ?_ (List.suffix_cons token rest) fun _ found => found
          refine (additive_meets rest).bind ?_
          rintro ⟨inner, middle⟩ reads
          refine Meets.mono ?_ reads.derives.consumes.suffix fun _ found => found
          refine (closing_meets stop middle).map ?_
          rintro closed ⟨closing, closes, shape⟩
          have closedReads : Reads .additive rest (closing :: closed.rest) inner :=
            shape ▸ reads
          refine ⟨.parentheses kind closes closedReads.derives, ?_⟩
          exact .trans (.single (by simp [kind]) rest)
            (closedReads.apart.trans (.single (by simp [closes]) closed.rest))
      | operator | rightParenthesis | comma | factorial | finish =>
          have other : token.kind = .operator ∨ token.kind = .rightParenthesis ∨
              token.kind = .comma ∨ token.kind = .factorial ∨ token.kind = .finish := by
            simp [kind]
          rw [stepResult_primary_other stop rest other]
          exact Meets.grammatical _
termination_by (tokens.length, 0)

theorem call_meets (token opening : Token) (inner : List Token)
    (kind : token.kind = .function ∨ token.kind = .identifier)
    (opens : opening.kind = .leftParenthesis) :
    Meets (token :: opening :: inner)
      (fun (tree, rest) => Reads .primary (token :: opening :: inner) rest tree)
      (stepResult (primary stop (token :: opening :: inner))) := by
  rw [stepResult_primary_call stop kind opens]
  have suffix : inner <:+ token :: opening :: inner := ⟨[token, opening], rfl⟩
  refine ((callArguments_meets inner).mono suffix fun _ found => found).bind ?_
  rintro ⟨first, others, after⟩ arguments
  refine (callOf_meets _ kind first others).map ?_
  intro tree made
  have apart : KeepsApart (token :: opening :: inner) after := by
    refine .trans (.single ?_ _) (.trans (.single ?_ inner) arguments.apart)
    · rcases kind with kind | kind <;> simp [kind]
    · simp [opens]
  rcases made with ⟨isFunction, made⟩ | ⟨isIdentifier, made⟩
  · exact ⟨.keyword isFunction opens arguments.derives made, apart⟩
  · exact ⟨.named isIdentifier opens arguments.derives made, apart⟩
termination_by (inner.length + 1, 8)

theorem callArguments_meets (tokens : List Token) :
    Meets tokens (fun (first, others, rest) => ReadsArguments tokens rest first others)
      (argumentsResult (callArguments stop tokens)) := by
  rw [argumentsResult_callArguments]
  split
  · exact Meets.grammatical _
  refine (additive_meets tokens).bind ?_
  rintro ⟨first, middle⟩ reads
  have shorter := reads.derives.consumes.length_lt
  refine ((furtherArguments_meets tokens first middle reads).mono
    reads.derives.consumes.suffix fun _ found => found).map ?_
  rintro ⟨others, rest⟩ arguments
  exact arguments
termination_by (tokens.length, 7)

theorem furtherArguments_meets (start : List Token) (first : Expr Float)
    (tokens : List Token) (before : Reads .additive start tokens first) :
    Meets tokens (fun (others, rest) => ReadsArguments start rest first others)
      (moreResult (furtherArguments stop tokens)) := by
  match tokens with
  | [] =>
      rw [moreResult_furtherArguments_nil]
      exact Meets.grammatical _
  | token :: rest =>
      rw [moreResult_furtherArguments_cons]
      split
      next comma =>
        refine Meets.mono ?_ (List.suffix_cons token rest) fun _ found => found
        refine (additive_meets rest).bind ?_
        rintro ⟨argument, middle⟩ reads
        have shorter := reads.derives.consumes.length_lt
        refine ((furtherArguments_meets rest argument middle reads).mono
          reads.derives.consumes.suffix fun _ found => found).map ?_
        rintro ⟨others, after⟩ arguments
        refine ⟨.more before.derives comma arguments.derives,
          before.apart.trans (.trans (.single ?_ rest) arguments.apart)⟩
        simp [comma]
      next =>
        split
        next closes =>
          refine ⟨.last before.derives closes, before.apart.trans (.single ?_ rest)⟩
          simp [closes]
        next => exact Meets.grammatical _
termination_by (tokens.length, 8)

end

end Parser

end ExprCalculus
