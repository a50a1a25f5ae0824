import ExprCalculus.Proofs.Grammar.Derivation

/-!
# What each step of the reader does

A step of the reader returns the tokens that are left inside a type that depends
on the tokens it started from.  Here every step is described once by an equation
between plain results, an expression with the tokens that are left, and the later
proofs use these equations only.
-/

namespace ExprCalculus

namespace Parser

/-- What a step reads, with the tokens that are left. -/
def stepResult {tokens : List Token} (reading : Reading (Step tokens)) :
    Except ReadError (Expr Float × List Token) :=
  reading.outcome.map fun step => (step.expression, step.rest)

def extensionResult {tokens : List Token} (reading : Reading (Extension tokens)) :
    Except ReadError (Expr Float × List Token) :=
  reading.outcome.map fun extension => (extension.expression, extension.rest)

def argumentsResult {tokens : List Token} (reading : Reading (Arguments tokens)) :
    Except ReadError (Expr Float × List (Expr Float) × List Token) :=
  reading.outcome.map fun arguments => (arguments.first, arguments.others, arguments.rest)

def moreResult {tokens : List Token} (reading : Reading (MoreArguments tokens)) :
    Except ReadError (List (Expr Float) × List Token) :=
  reading.outcome.map fun arguments => (arguments.others, arguments.rest)

def marked (operand : Expr Float) (tokens : List Token) : Expr Float × List Token :=
  ((factorialMarks operand tokens).expression, (factorialMarks operand tokens).rest)

section Operators

theorem isOperator_singleton {token : Token} {symbol : String} :
    token.isOperator [symbol] = true ↔ token.kind = .operator ∧ token.text = symbol := by
  simp [Token.isOperator]

theorem additiveOperator?_eq_some {token : Token} {operator : BinaryOperator} :
    additiveOperator? token = some operator ↔
      Grammar.IsSign token operator ∧ operator.precedence = .additive := by
  unfold additiveOperator? Grammar.IsSign
  simp only [isOperator_singleton]
  cases operator <;> grind [BinaryOperator.symbol?, BinaryOperator.precedence]

theorem multiplicativeOperator?_eq_some {token : Token} {operator : BinaryOperator} :
    multiplicativeOperator? token = some operator ↔
      Grammar.IsSign token operator ∧ operator.precedence = .multiplicative := by
  unfold multiplicativeOperator? Grammar.IsSign
  simp only [isOperator_singleton]
  cases operator <;> grind [BinaryOperator.symbol?, BinaryOperator.precedence]

theorem isOperator_iff_isSign {token : Token} {symbol : String}
    (operator : BinaryOperator) (named : operator.symbol? = some symbol) :
    token.isOperator [symbol] = true ↔ Grammar.IsSign token operator := by
  rw [isOperator_singleton, Grammar.IsSign, named, Option.some.injEq,
    eq_comm (a := symbol)]

end Operators

variable (stop : Token)

theorem stepResult_additive (tokens : List Token) :
    stepResult (additive stop tokens) =
      (stepResult (multiplicative stop tokens)).bind fun (left, middle) =>
        extensionResult (additiveTail stop left middle) := by
  rw [additive]
  simp only [stepResult, extensionResult, Traced.outcome_bind]
  rcases (multiplicative stop tokens).outcome with error | left
  · rfl
  simp only [Except.bind, Except.map]
  rcases (additiveTail stop left.expression left.rest).outcome with error | sum <;> rfl

theorem extensionResult_additiveTail_nil (left : Expr Float) :
    extensionResult (additiveTail stop left []) = .ok (left, []) := by
  rw [additiveTail]
  rfl

theorem extensionResult_additiveTail_cons (left : Expr Float) (token : Token)
    (rest : List Token) :
    extensionResult (additiveTail stop left (token :: rest)) =
      match additiveOperator? token with
      | none => .ok (left, token :: rest)
      | some operator =>
          (requireOperand stop token.text rest).outcome.bind fun _ =>
            (stepResult (multiplicative stop rest)).bind fun (right, after) =>
              extensionResult (additiveTail stop (.binary operator left right) after) := by
  rw [additiveTail]
  cases additiveOperator? token with
  | none => rfl
  | some operator =>
      simp only [stepResult, extensionResult, Traced.outcome_bind]
      rcases (requireOperand stop token.text rest).outcome with error | operand
      · rfl
      rcases (multiplicative stop rest).outcome with error | right
      · rfl
      simp only [Except.bind, Except.map]
      rcases (additiveTail stop (.binary operator left right.expression) right.rest).outcome
        with error | sum <;> rfl

theorem stepResult_multiplicative (tokens : List Token) :
    stepResult (multiplicative stop tokens) =
      (stepResult (signed stop tokens)).bind fun (left, middle) =>
        extensionResult (multiplicativeTail stop left middle) := by
  rw [multiplicative]
  simp only [stepResult, extensionResult, Traced.outcome_bind]
  rcases (signed stop tokens).outcome with error | left
  · rfl
  simp only [Except.bind, Except.map]
  rcases (multiplicativeTail stop left.expression left.rest).outcome with error | product <;> rfl

theorem extensionResult_multiplicativeTail_nil (left : Expr Float) :
    extensionResult (multiplicativeTail stop left []) = .ok (left, []) := by
  rw [multiplicativeTail]
  rfl

theorem extensionResult_multiplicativeTail_cons (left : Expr Float) (token : Token)
    (rest : List Token) :
    extensionResult (multiplicativeTail stop left (token :: rest)) =
      match multiplicativeOperator? token with
      | none => .ok (left, token :: rest)
      | some operator =>
          (requireOperand stop token.text rest).outcome.bind fun _ =>
            (stepResult (signed stop rest)).bind fun (right, after) =>
              extensionResult
                (multiplicativeTail stop (.binary operator left right) after) := by
  rw [multiplicativeTail]
  cases multiplicativeOperator? token with
  | none => rfl
  | some operator =>
      simp only [stepResult, extensionResult, Traced.outcome_bind]
      rcases (requireOperand stop token.text rest).outcome with error | operand
      · rfl
      rcases (signed stop rest).outcome with error | right
      · rfl
      simp only [Except.bind, Except.map]
      rcases (multiplicativeTail stop (.binary operator left right.expression)
        right.rest).outcome with error | product <;> rfl

/-- A sign in front of an operand, where `build` is what the sign makes of it. -/
theorem stepResult_signed_cons (token : Token) (rest : List Token) :
    stepResult (signed stop (token :: rest)) =
      if token.isOperator ["-"] then
        (requireOperand stop token.text rest).outcome.bind fun _ =>
          (stepResult (signed stop rest)).map fun (operand, after) =>
            (.unary .negate operand, after)
      else if token.isOperator ["+"] then
        (requireOperand stop token.text rest).outcome.bind fun _ =>
          stepResult (signed stop rest)
      else
        stepResult (powered stop (token :: rest)) := by
  rw [signed]
  simp only [stepResult]
  split
  · simp only [Traced.outcome_bind]
    rcases (requireOperand stop token.text rest).outcome with error | operand
    · rfl
    rcases (signed stop rest).outcome with error | operand <;> rfl
  · split
    · simp only [Traced.outcome_bind]
      rcases (requireOperand stop token.text rest).outcome with error | operand
      · rfl
      rcases (signed stop rest).outcome with error | operand <;> rfl
    · rfl

theorem stepResult_signed_nil :
    stepResult (signed stop []) = stepResult (powered stop []) := by
  rw [signed]

theorem stepResult_powered (tokens : List Token) :
    stepResult (powered stop tokens) =
      (stepResult (primary stop tokens)).bind fun (base, middle) =>
        extensionResult (exponent stop (marked base middle).1 (marked base middle).2) := by
  rw [powered]
  simp only [stepResult, extensionResult, Traced.outcome_bind]
  rcases (primary stop tokens).outcome with error | base
  · rfl
  simp only [Except.bind, Except.map, Step.followedBy, marked]
  rcases (exponent stop (factorialMarks base.expression base.rest).expression
    (factorialMarks base.expression base.rest).rest).outcome with error | power <;> rfl

theorem extensionResult_exponent_nil (base : Expr Float) :
    extensionResult (exponent stop base []) = .ok (base, []) := by
  rw [exponent]
  rfl

theorem extensionResult_exponent_cons (base : Expr Float) (token : Token)
    (rest : List Token) :
    extensionResult (exponent stop base (token :: rest)) =
      if token.isOperator ["^"] then
        (requireOperand stop token.text rest).outcome.bind fun _ =>
          (stepResult (signed stop rest)).map fun (raised, after) =>
            (.binary .power base raised, after)
      else
        .ok (base, token :: rest) := by
  rw [exponent]
  split
  · simp only [extensionResult, stepResult, Traced.outcome_bind]
    rcases (requireOperand stop token.text rest).outcome with error | operand
    · rfl
    rcases (signed stop rest).outcome with error | raised <;> rfl
  · rfl

theorem argumentsResult_callArguments (tokens : List Token) :
    argumentsResult (callArguments stop tokens) =
      if (tokens.headD stop).kind = .rightParenthesis then
        .error (.grammatical ⟨.noArguments, tokens.headD stop⟩)
      else
        (stepResult (additive stop tokens)).bind fun (first, middle) =>
          (moreResult (furtherArguments stop middle)).map fun (others, rest) =>
            (first, others, rest) := by
  rw [callArguments]
  dsimp only
  split
  · rfl
  simp only [argumentsResult, stepResult, moreResult, Traced.outcome_bind]
  rcases (additive stop tokens).outcome with error | first
  · rfl
  simp only [Except.bind, Except.map]
  rcases (furtherArguments stop first.rest).outcome with error | more <;> rfl

theorem moreResult_furtherArguments_nil :
    moreResult (furtherArguments stop []) =
      .error (.grammatical ⟨.expectedClosingOrComma, stop⟩) := by
  rw [furtherArguments]
  rfl

theorem moreResult_furtherArguments_cons (token : Token) (rest : List Token) :
    moreResult (furtherArguments stop (token :: rest)) =
      if token.kind = .comma then
        (stepResult (additive stop rest)).bind fun (argument, middle) =>
          (moreResult (furtherArguments stop middle)).map fun (others, after) =>
            (argument :: others, after)
      else if token.kind = .rightParenthesis then
        .ok ([], rest)
      else
        .error (.grammatical ⟨.expectedClosingOrComma, token⟩) := by
  rw [furtherArguments]
  split
  · simp only [stepResult, moreResult, Traced.outcome_bind]
    rcases (additive stop rest).outcome with error | argument
    · rfl
    simp only [Except.bind, Except.map]
    rcases (furtherArguments stop argument.rest).outcome with error | more <;> rfl
  · split <;> rfl

section Primaries

variable {token : Token} (rest : List Token)

theorem stepResult_primary_nil :
    stepResult (primary stop []) = .error (.grammatical ⟨.unexpectedEnd, stop⟩) := by
  rw [primary]
  rfl

theorem stepResult_primary_number (kind : token.kind = .number) :
    stepResult (primary stop (token :: rest)) =
      match Decimal.read? token.text with
      | some value => .ok (.const value, rest)
      | none => .error (.unreadableNumber token.text) := by
  cases rest <;> rw [primary] <;> simp only [kind] <;>
    cases Decimal.read? token.text <;> rfl

theorem stepResult_primary_constant (kind : token.kind = .constant) :
    stepResult (primary stop (token :: rest)) =
      match Token.constantValue? token.text with
      | some value => .ok (.const value, rest)
      | none => .error (.unknownConstant token.text) := by
  cases rest <;> rw [primary] <;> simp only [kind] <;>
    cases Token.constantValue? token.text <;> rfl

def callOf (token : Token) (first : Expr Float) (others : List (Expr Float)) :
    Except ReadError (Expr Float) :=
  if token.kind = .function then
    (reservedCall token first others).outcome
  else
    (furtherCall token first others).outcome

theorem stepResult_primary_call (kind : token.kind = .function ∨ token.kind = .identifier)
    {opening : Token} (opens : opening.kind = .leftParenthesis) (inner : List Token) :
    stepResult (primary stop (token :: opening :: inner)) =
      (argumentsResult (callArguments stop inner)).bind fun (first, others, after) =>
        (callOf token first others).map fun tree => (tree, after) := by
  rcases kind with kind | kind <;> rw [primary] <;>
    simp only [kind, opens, if_true, stepResult, argumentsResult, callOf,
      Traced.outcome_bind]
  · rcases (callArguments stop inner).outcome with error | arguments
    · rfl
    simp only [Except.bind, Except.map]
    rcases (reservedCall token arguments.first arguments.others).outcome
      with error | tree <;> rfl
  · rcases (callArguments stop inner).outcome with error | arguments
    · rfl
    simp only [Except.bind, Except.map, reduceCtorEq, if_false]
    rcases (furtherCall token arguments.first arguments.others).outcome
      with error | tree <;> rfl

theorem stepResult_primary_variable (kind : token.kind = .identifier)
    (notCall : ∀ next ∈ rest.head?, next.kind ≠ .leftParenthesis) :
    stepResult (primary stop (token :: rest)) =
      (variableOf token).outcome.map fun tree => (tree, rest) := by
  cases rest with
  | nil =>
      rw [primary]
      simp only [kind, stepResult, Traced.outcome_bind]
      rcases (variableOf token).outcome with error | tree <;> rfl
  | cons next after =>
      rw [primary]
      simp only [kind, notCall next rfl, if_false, stepResult, Traced.outcome_bind]
      rcases (variableOf token).outcome with error | tree <;> rfl

theorem stepResult_primary_unopened (kind : token.kind = .function)
    (notCall : ∀ next ∈ rest.head?, next.kind ≠ .leftParenthesis) :
    stepResult (primary stop (token :: rest)) =
      .error (.grammatical ⟨.expectedOpening token.text, rest.headD stop⟩) := by
  cases rest with
  | nil =>
      rw [primary]
      simp only [kind]
      rfl
  | cons next after =>
      rw [primary]
      simp only [kind, notCall next rfl, if_false]
      rfl

theorem stepResult_primary_parenthesis (kind : token.kind = .leftParenthesis) :
    stepResult (primary stop (token :: rest)) =
      if (rest.headD stop).kind = .rightParenthesis then
        .error (.grammatical ⟨.emptyParentheses, rest.headD stop⟩)
      else
        (stepResult (additive stop rest)).bind fun (inner, middle) =>
          (closing stop middle).outcome.map fun closed => (inner, closed.rest) := by
  have unfolded : primary stop (token :: rest) =
      if (rest.headD stop).kind = .rightParenthesis then
        failAt .emptyParentheses (rest.headD stop)
      else do
        let inner ← additive stop rest
        let closed ← closing stop inner.rest
        return inner.enclosed token closed := by
    cases rest <;> rw [primary] <;> simp only [kind]
  rw [unfolded]
  split
  · rfl
  simp only [stepResult, Traced.outcome_bind]
  rcases (additive stop rest).outcome with error | inner
  · rfl
  simp only [Except.bind, Except.map]
  rcases (closing stop inner.rest).outcome with error | closed <;> rfl

theorem stepResult_primary_other (kind : token.kind = .operator ∨
    token.kind = .rightParenthesis ∨ token.kind = .comma ∨ token.kind = .factorial
      ∨ token.kind = .finish) :
    stepResult (primary stop (token :: rest)) = .error (.grammatical
      ⟨if token.kind = .finish then .unexpectedEnd else .unexpectedToken, token⟩) := by
  rcases kind with kind | kind | kind | kind | kind <;>
    cases rest <;> rw [primary] <;> simp only [kind] <;> rfl

end Primaries

/-- The reader works on the tokens before the first end token, with the end token for its
messages. -/
theorem outcome_ofTokens {tokens body : List Token} {stop : Token}
    (isBody : tokens.takeWhile (·.kind ≠ .finish) = body) (isStop : endToken tokens = stop)
    (nonempty : body ≠ []) :
    (Expr.ofTokens tokens).outcome =
      (stepResult (additive stop body)).bind fun result =>
        match result.2 with
        | [] => .ok result.1
        | token :: _ => .error (.grammatical ⟨.expectedEnd, token⟩) := by
  unfold Expr.ofTokens
  dsimp only
  rw [isStop, isBody, if_neg (by simpa using nonempty), Traced.outcome_bind]
  unfold stepResult
  cases (additive stop body).outcome with
  | error problem => rfl
  | ok step =>
      obtain ⟨tree, rest, shorter⟩ := step
      cases rest <;> rfl

end Parser

end ExprCalculus
