import ExprCalculus.Proofs.Grammar.ReaderSteps

/-!
# What derives from the grammar is read

A derivation may stop anywhere, while the reader goes on as long as it can.  So
a derivation determines what the reader does only if the next token cannot extend
the phrase.  Sums, products and factorial marks are read in loops that carry the
expression read so far; their derivations grow at the right end, and the statement
about them is that the reader reaches the state of its loop that the derivation
describes.
-/

namespace ExprCalculus

namespace Grammar

/-- The next token extends no power and no marked expression. -/
def EndsPower (rest : List Token) : Prop :=
  ∀ next ∈ rest.head?, next.kind ≠ .factorial ∧ ¬ IsSign next .power

def EndsProduct (rest : List Token) : Prop :=
  EndsPower rest ∧ ∀ next ∈ rest.head?, ∀ operator, IsSign next operator →
    operator.precedence ≠ .multiplicative

def EndsSum (rest : List Token) : Prop :=
  EndsProduct rest ∧ ∀ next ∈ rest.head?, ∀ operator, IsSign next operator →
    operator.precedence ≠ .additive

theorem IsSign.operator_unique {token : Token} {first second : BinaryOperator}
    (isFirst : IsSign token first) (isSecond : IsSign token second) : first = second := by
  have same : first.symbol? = second.symbol? := isFirst.2.trans isSecond.2.symm
  have named : first.symbol? ≠ none := by simp [isFirst.2]
  revert same named
  cases first <;> cases second <;> decide

theorem endsPower_of_isSign {token : Token} {operator : BinaryOperator}
    (sign : IsSign token operator) (other : operator.precedence ≠ .power)
    (rest : List Token) : EndsPower (token :: rest) := by
  rintro _ ⟨⟩
  have kind : token.kind ≠ .factorial := by rw [sign.1]; decide
  refine ⟨kind, fun power => ?_⟩
  rw [sign.operator_unique power] at other
  exact other rfl

theorem endsProduct_of_isSign {token : Token} {operator : BinaryOperator}
    (sign : IsSign token operator) (sum : operator.precedence = .additive)
    (rest : List Token) : EndsProduct (token :: rest) := by
  refine ⟨endsPower_of_isSign sign (by rw [sum]; decide) rest, ?_⟩
  rintro _ ⟨⟩ other isOther
  rw [← sign.operator_unique isOther, sum]
  decide

theorem endsSum_of_kind {token : Token} (kind : token.kind ≠ .operator)
    (notMark : token.kind ≠ .factorial) (rest : List Token) : EndsSum (token :: rest) := by
  refine ⟨⟨?_, ?_⟩, ?_⟩ <;> rintro _ ⟨⟩
  · exact ⟨notMark, fun sign => kind sign.1⟩
  · exact fun _ sign => absurd sign.1 kind
  · exact fun _ sign => absurd sign.1 kind

theorem endsSum_nil : EndsSum [] := by
  simp [EndsSum, EndsProduct, EndsPower]

end Grammar

namespace Parser

open Grammar

theorem requireOperand_outcome {phrase : Phrase} {token : Token} {middle rest : List Token}
    (stop : Token) (sign : token.kind = .operator)
    (admissible : Admissible (token :: middle)) (consumes : Consumes phrase middle rest) :
    (requireOperand stop token.text middle).outcome = .ok () := by
  obtain ⟨next, consumed, starts, rfl⟩ := consumes
  have follows : MayFollow token next := (List.isChain_cons_cons.mp admissible.apart).1
  have admitted : mayFollowOperator next = true := by
    unfold mayFollowOperator
    rcases starts with (kind | kind | kind | kind | kind) | ⟨-, kind⟩ <;> simp only [kind]
    exact decide_eq_true (follows sign kind)
  simp [requireOperand, admitted]

theorem marked_of_not_factorial {operand : Expr Float} {rest : List Token}
    (ends : ∀ next ∈ rest.head?, next.kind ≠ .factorial) :
    marked operand rest = (operand, rest) := by
  cases rest with
  | nil => rfl
  | cons token rest =>
      have kind := ends token rfl
      simp [marked, factorialMarks, kind, Extension.nothing]

theorem marked_of_factorial {operand : Expr Float} {token : Token} {rest : List Token}
    (mark : token.kind = .factorial) :
    marked operand (token :: rest) = marked (.unary .factorial operand) rest := by
  simp [marked, factorialMarks, mark]

theorem additiveTail_of_endsSum (stop : Token) (tree : Expr Float) {rest : List Token}
    (ends : EndsSum rest) :
    extensionResult (additiveTail stop tree rest) = .ok (tree, rest) := by
  cases rest with
  | nil => exact extensionResult_additiveTail_nil stop tree
  | cons token rest =>
      rw [extensionResult_additiveTail_cons]
      cases isSum : additiveOperator? token with
      | none => rfl
      | some operator =>
          rw [additiveOperator?_eq_some] at isSum
          exact absurd isSum.2 (ends.2 token rfl operator isSum.1)

theorem multiplicativeTail_of_endsProduct (stop : Token) (tree : Expr Float)
    {rest : List Token} (ends : EndsProduct rest) :
    extensionResult (multiplicativeTail stop tree rest) = .ok (tree, rest) := by
  cases rest with
  | nil => exact extensionResult_multiplicativeTail_nil stop tree
  | cons token rest =>
      rw [extensionResult_multiplicativeTail_cons]
      cases isProduct : multiplicativeOperator? token with
      | none => rfl
      | some operator =>
          rw [multiplicativeOperator?_eq_some] at isProduct
          exact absurd isProduct.2 (ends.2 token rfl operator isProduct.1)

theorem exponent_of_endsPower (stop : Token) (base : Expr Float) {rest : List Token}
    (ends : EndsPower rest) :
    extensionResult (exponent stop base rest) = .ok (base, rest) := by
  cases rest with
  | nil => exact extensionResult_exponent_nil stop base
  | cons token rest =>
      rw [extensionResult_exponent_cons, if_neg]
      rw [isOperator_iff_isSign .power rfl]
      exact (ends token rfl).2

/-- What the reader of a phrase does on tokens with a derivation of the phrase. -/
def Completes (stop : Token) (tokens rest : List Token) (tree : Expr Float) :
    Phrase → Prop
  | .additive => EndsProduct rest →
      stepResult (additive stop tokens) = extensionResult (additiveTail stop tree rest)
  | .multiplicative => EndsPower rest →
      stepResult (multiplicative stop tokens) =
        extensionResult (multiplicativeTail stop tree rest)
  | .unary => EndsPower rest → stepResult (signed stop tokens) = .ok (tree, rest)
  | .power => EndsPower rest → stepResult (powered stop tokens) = .ok (tree, rest)
  | .postfixed => ∃ base middle, stepResult (primary stop tokens) = .ok (base, middle) ∧
      marked base middle = marked tree rest
  | .primary => stepResult (primary stop tokens) = .ok (tree, rest)

/-- The reserved names with arguments of their own are no words of operators. -/
theorem ofWord?_special :
    ∀ special ∈ ["log", "pow", "min", "max"], UnaryOperator.ofWord? special = none := by
  decide

theorem callOf_keyword {token : Token} (kind : token.kind = .function) {first : Expr Float}
    {others : List (Expr Float)} {tree : Expr Float}
    (call : KeywordCall token.text first others tree) :
    callOf token first others = .ok tree := by
  rw [callOf, if_pos kind]
  unfold reservedCall
  generalize named : token.text = word at call
  cases call with
  | unary argument known =>
      have notSpecial : ∀ special ∈ ["log", "pow", "min", "max"], word ≠ special := by
        rintro special member rfl
        rw [ofWord?_special word member] at known
        cases known
      simp only [List.mem_cons, List.not_mem_nil, or_false, forall_eq_or_imp, forall_eq]
        at notSpecial
      simp [notSpecial, known]
  | naturalLogarithm | logarithm | power | minimum | maximum => simp

theorem callOf_named {token : Token} (kind : token.kind = .identifier) {first : Expr Float}
    {others : List (Expr Float)} {tree : Expr Float}
    (call : NamedCall token.text first others tree) :
    callOf token first others = .ok tree := by
  rw [callOf, if_neg (by simp [kind])]
  unfold furtherCall
  dsimp only
  generalize token.text = word at call
  cases call with
  | marker bound isIntegral => rw [isIntegral]; rfl
  | call =>
      next notMarker =>
      split
      next _ _ bound isIntegral =>
        exact absurd rfl (notMarker bound (of_decide_eq_true isIntegral))
      next => rfl

/-- Tokens without a sign in front are read as a power. -/
theorem signed_of_not_sign {tokens : List Token} (stop : Token)
    (unsigned : ∀ token ∈ tokens.head?, token.kind ≠ .operator) :
    stepResult (signed stop tokens) = stepResult (powered stop tokens) := by
  cases tokens with
  | nil => exact stepResult_signed_nil stop
  | cons token rest =>
      have notSign : ∀ operator, ¬ IsSign token operator :=
        fun _ sign => unsigned token rfl sign.1
      rw [stepResult_signed_cons,
        if_neg (mt (isOperator_iff_isSign .subtract rfl).mp (notSign _)),
        if_neg (mt (isOperator_iff_isSign .add rfl).mp (notSign _))]

/-- A phrase is no closing parenthesis. -/
theorem headD_not_closing {phrase : Phrase} {tokens rest : List Token} (stop : Token)
    (consumes : Consumes phrase tokens rest) :
    (tokens.headD stop).kind ≠ .rightParenthesis := by
  obtain ⟨start, consumed, starts, rfl⟩ := consumes
  rw [List.headD_cons]
  rcases starts with (kind | kind | kind | kind | kind) | ⟨-, kind⟩ <;> simp [kind]

/-- A first argument and further arguments are arguments. -/
theorem argumentsResult_of_derives {tokens rest : List Token} {first : Expr Float}
    {others : List (Expr Float)} (stop : Token)
    (derives : DerivesArguments tokens rest first others)
    (read : ∃ middle, stepResult (additive stop tokens) = .ok (first, middle) ∧
      moreResult (furtherArguments stop middle) = .ok (others, rest)) :
    argumentsResult (callArguments stop tokens) = .ok (first, others, rest) := by
  obtain ⟨middle, readFirst, readOthers⟩ := read
  rw [argumentsResult_callArguments, if_neg (headD_not_closing stop derives.consumes), readFirst]
  simp only [Except.bind]
  rw [readOthers]
  rfl

variable (stop : Token)

mutual

theorem completes {phrase : Phrase} {tokens rest : List Token} {tree : Expr Float}
    (derives : Derives phrase tokens rest tree) (admissible : Admissible tokens) :
    Completes stop tokens rest tree phrase := by
  match derives with
  | .product first =>
      intro ends
      rw [stepResult_additive, completes first admissible ends.1,
        multiplicativeTail_of_endsProduct stop tree ends]
      rfl
  | @Derives.sum _ _ middle _ _ _ _ left sign precedence right =>
      intro ends
      have later := admissible.suffix left.consumes.suffix
      rw [completes left admissible (endsProduct_of_isSign sign precedence middle),
        extensionResult_additiveTail_cons, additiveOperator?_eq_some.mpr ⟨sign, precedence⟩]
      dsimp only
      rw [requireOperand_outcome stop sign.1 later right.consumes, Except.bind,
        completes right later.tail ends.1, multiplicativeTail_of_endsProduct stop _ ends]
      rfl
  | .factor first =>
      intro ends
      rw [stepResult_multiplicative, completes first admissible ends]
      rfl
  | @Derives.multiple _ _ middle _ _ _ _ left sign precedence right =>
      intro ends
      have later := admissible.suffix left.consumes.suffix
      rw [completes left admissible (endsPower_of_isSign sign (by rw [precedence]; decide) middle),
        extensionResult_multiplicativeTail_cons,
        multiplicativeOperator?_eq_some.mpr ⟨sign, precedence⟩]
      dsimp only
      rw [requireOperand_outcome stop sign.1 later right.consumes, Except.bind,
        completes right later.tail ends]
      rfl
  | .negation sign operand =>
      intro ends
      rw [stepResult_signed_cons, if_pos ((isOperator_iff_isSign .subtract rfl).mpr sign),
        requireOperand_outcome stop sign.1 admissible operand.consumes, Except.bind,
        completes operand admissible.tail ends]
      rfl
  | .affirmation sign operand =>
      intro ends
      have notMinus : ¬ _ := fun minus =>
        absurd (sign.operator_unique ((isOperator_iff_isSign .subtract rfl).mp minus)) (by decide)
      rw [stepResult_signed_cons, if_neg notMinus,
        if_pos ((isOperator_iff_isSign .add rfl).mpr sign),
        requireOperand_outcome stop sign.1 admissible operand.consumes, Except.bind,
        completes operand admissible.tail ends]
  | .unsigned first =>
      intro ends
      rw [signed_of_not_sign stop (first.head_not_operator rfl), completes first admissible ends]
  | .base first =>
      intro ends
      obtain ⟨base, middle, read, marks⟩ := completes first admissible
      have unmarked : marked tree rest = (tree, rest) :=
        marked_of_not_factorial fun next isNext => (ends next isNext).1
      rw [stepResult_powered, read]
      simp only [Except.bind]
      rw [marks, unmarked, exponent_of_endsPower stop tree ends]
  | @Derives.raised _ token middle _ base _ first sign exponent =>
      intro ends
      obtain ⟨start, after, read, marks⟩ := completes first admissible
      have later := admissible.suffix first.consumes.suffix
      have unmarked : marked base (token :: middle) = (base, token :: middle) :=
        marked_of_not_factorial (by rintro _ ⟨⟩; rw [sign.1]; decide)
      rw [stepResult_powered, read]
      simp only [Except.bind]
      rw [marks, unmarked, extensionResult_exponent_cons,
        if_pos ((isOperator_iff_isSign .power rfl).mpr sign),
        requireOperand_outcome stop sign.1 later exponent.consumes, Except.bind,
        completes exponent later.tail ends]
      rfl
  | .unmarked first => exact ⟨tree, rest, completes first admissible, rfl⟩
  | .factorial first mark =>
      obtain ⟨base, middle, read, marks⟩ := completes first admissible
      exact ⟨base, middle, read, marks.trans (marked_of_factorial mark)⟩
  | .number kind value =>
      rw [Completes, stepResult_primary_number stop rest kind, value]
  | .constant kind value =>
      rw [Completes, stepResult_primary_constant stop rest kind, value]
  | @Derives.variableName token _ kind notCall =>
      have named := admissible.lexemes token List.mem_cons_self
      simp only [Token.IsLexeme, kind] at named
      rw [Completes, stepResult_primary_variable stop rest kind notCall]
      simp [variableOf, Expr.var?, named, Except.mapError, Except.map]
  | .keyword kind opens arguments call =>
      rw [Completes, stepResult_primary_call stop (.inl kind) opens,
        argumentsResult_of_derives stop arguments (argumentsComplete arguments admissible.tail.tail)]
      simp only [Except.bind, callOf_keyword kind call]
      rfl
  | .named kind opens arguments call =>
      rw [Completes, stepResult_primary_call stop (.inr kind) opens,
        argumentsResult_of_derives stop arguments (argumentsComplete arguments admissible.tail.tail)]
      simp only [Except.bind, callOf_named kind call]
      rfl
  | @Derives.parentheses _ closing _ _ _ kind closes inner =>
      have ends : EndsSum (closing :: rest) :=
        endsSum_of_kind (by simp [closes]) (by simp [closes]) rest
      rw [Completes, stepResult_primary_parenthesis stop _ kind,
        if_neg (headD_not_closing stop inner.consumes),
        completes inner admissible.tail ends.1, additiveTail_of_endsSum stop tree ends]
      simp [Except.bind, Parser.closing, closes]
      rfl

theorem argumentsComplete {tokens rest : List Token} {first : Expr Float}
    {others : List (Expr Float)} (derives : DerivesArguments tokens rest first others)
    (admissible : Admissible tokens) :
    ∃ middle, stepResult (additive stop tokens) = .ok (first, middle) ∧
      moreResult (furtherArguments stop middle) = .ok (others, rest) := by
  match derives with
  | @DerivesArguments.last _ closing _ _ argument closes =>
      have ends : EndsSum (closing :: rest) :=
        endsSum_of_kind (by simp [closes]) (by simp [closes]) rest
      refine ⟨closing :: rest, ?_, ?_⟩
      · rw [completes argument admissible ends.1, additiveTail_of_endsSum stop first ends]
      · rw [moreResult_furtherArguments_cons, if_neg (by simp [closes]), if_pos closes]
  | @DerivesArguments.more _ comma middle _ _ _ _ argument separates more =>
      have ends : EndsSum (comma :: middle) :=
        endsSum_of_kind (by simp [separates]) (by simp [separates]) middle
      have later := (admissible.suffix argument.consumes.suffix).tail
      obtain ⟨after, readSecond, readOthers⟩ := argumentsComplete more later
      refine ⟨comma :: middle, ?_, ?_⟩
      · rw [completes argument admissible ends.1, additiveTail_of_endsSum stop first ends]
      · rw [moreResult_furtherArguments_cons, if_pos separates, readSecond]
        simp only [Except.bind]
        rw [readOthers]
        rfl

end

end Parser

end ExprCalculus
