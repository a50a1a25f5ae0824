import ExprCalculus.Notice
import ExprCalculus.Token.Lexer
import ExprCalculus.Traced

/-!
# Reading expressions

The grammar, loosest first: sums and differences, products, quotients and
remainders, signs, powers, factorial marks, and primaries.  Binary operators
group to the left, except the power, whose exponent may carry signs.  After an
operator there must be an operand or a minus sign.

The reader looks one token ahead and never reads past the first end token, so it
works on the tokens before that end, together with the end token for its
messages.  Each step returns what is left of the tokens together with a proof
that it consumed some, which bounds the recursion.
-/

namespace ExprCalculus

/-- What is wrong at a token. -/
inductive ParseError.Cause where
  | empty
  | expectedEnd
  | expectedOperand (operator : String)
  | expectedOpening (function : String)
  | expectedClosing
  | expectedClosingOrComma
  | emptyParentheses
  | noArguments
  | unexpectedEnd
  | unexpectedToken
  | arity (expected : String) (actual : Nat)
deriving DecidableEq, Repr

/-- The first token that does not fit, and what is wrong with it. -/
structure ParseError where
  cause : ParseError.Cause
  token : Token
deriving DecidableEq, Repr

namespace ParseError

/-- What was expected, for the causes that name an expectation. -/
def Cause.lead? : Cause → Option String
  | empty => none
  | expectedEnd => some "Expected end of expression"
  | expectedOperand operator => some s!"Expected operand after '{operator}'"
  | expectedOpening function => some s!"Expected '(' after function '{function}'"
  | expectedClosing => some "Expected ')'"
  | expectedClosingOrComma => some "Expected ')' or ','"
  | emptyParentheses => some "Expected expression inside parentheses"
  | noArguments => some "Function call requires at least one argument"
  | unexpectedEnd => some "Unexpected end of expression"
  | unexpectedToken => some "Unexpected token"
  | arity _ _ => none

def message (error : ParseError) : String :=
  let token := error.token
  match error.cause, error.cause.lead? with
  | _, some lead =>
      let found := if token.kind = .finish then "end of input" else s!"'{token.text}'"
      s!"{lead} but found {found} at position {token.position}"
  | .arity expected actual, none =>
      s!"Function '{token.text}' expects {expected} argument(s), got {actual} at position {token.position}"
  | _, none => "Empty expression"

end ParseError

/-- Why a text or a list of tokens is no expression. -/
inductive ReadError where
  | lexical (error : LexError)
  | grammatical (error : ParseError)
  | build (error : BuildError)
  | unreadableNumber (text : String)
  | unknownConstant (name : String)
  | unknownFunction (name : String)
deriving DecidableEq, Repr

namespace Parser

abbrev Reading (α : Type) :=
  Traced (Notice Float) ReadError α

def failAt {α : Type} (cause : ParseError.Cause) (token : Token) : Reading α :=
  .fail (.grammatical ⟨cause, token⟩)

/-- An expression read from the front of a list of tokens, and the rest. -/
structure Step (tokens : List Token) where
  expression : Expr Float
  rest : List Token
  shorter : rest.length < tokens.length

/-- An expression extended by operators from the front of a list of tokens, and
the rest. -/
structure Extension (tokens : List Token) where
  expression : Expr Float
  rest : List Token
  notLonger : rest.length ≤ tokens.length

/-- The arguments of a call read up to the closing parenthesis, and the rest. -/
structure Arguments (tokens : List Token) where
  first : Expr Float
  others : List (Expr Float)
  rest : List Token
  shorter : rest.length < tokens.length

/-- Further arguments of a call read up to the closing parenthesis, and the rest. -/
structure MoreArguments (tokens : List Token) where
  others : List (Expr Float)
  rest : List Token
  shorter : rest.length < tokens.length

/-- What follows a closing parenthesis at the front of a list of tokens. -/
structure Closed (tokens : List Token) where
  rest : List Token
  shorter : rest.length < tokens.length

def Step.single (expression : Expr Float) (token : Token) (rest : List Token) :
    Step (token :: rest) :=
  ⟨expression, rest, Nat.lt_succ_self _⟩

/-- The step that reads one token in front of another step. -/
def Step.under (token : Token) {rest : List Token} (step : Step rest)
    (expression : Expr Float) : Step (token :: rest) :=
  ⟨expression, step.rest, Nat.lt_succ_of_lt step.shorter⟩

/-- The step that goes on with an extension of its expression. -/
def Step.followedBy {tokens : List Token} (step : Step tokens)
    (extension : Extension step.rest) : Step tokens :=
  ⟨extension.expression, extension.rest,
    Nat.lt_of_le_of_lt extension.notLonger step.shorter⟩

def Step.enclosed (token : Token) {rest : List Token} (step : Step rest)
    (closed : Closed step.rest) : Step (token :: rest) :=
  ⟨step.expression, closed.rest,
    Nat.lt_succ_of_lt (Nat.lt_trans closed.shorter step.shorter)⟩

def Step.called (name opening : Token) {rest : List Token} (arguments : Arguments rest)
    (expression : Expr Float) : Step (name :: opening :: rest) :=
  ⟨expression, arguments.rest, Nat.lt_succ_of_lt (Nat.lt_succ_of_lt arguments.shorter)⟩

def Extension.nothing (expression : Expr Float) (tokens : List Token) :
    Extension tokens :=
  ⟨expression, tokens, Nat.le_refl _⟩

def Extension.under (token : Token) {rest : List Token} (step : Step rest)
    (expression : Expr Float) : Extension (token :: rest) :=
  ⟨expression, step.rest, Nat.le_of_lt (Nat.lt_succ_of_lt step.shorter)⟩

/-- The extension that reads an operator, a step and a further extension. -/
def Extension.through (token : Token) {rest : List Token} (step : Step rest)
    (extension : Extension step.rest) : Extension (token :: rest) :=
  ⟨extension.expression, extension.rest,
    Nat.le_of_lt (Nat.lt_succ_of_lt
      (Nat.lt_of_le_of_lt extension.notLonger step.shorter))⟩

def Arguments.cons {tokens : List Token} (first : Step tokens)
    (more : MoreArguments first.rest) : Arguments tokens :=
  ⟨first.expression, more.others, more.rest, Nat.lt_trans more.shorter first.shorter⟩

def MoreArguments.cons (comma : Token) {rest : List Token} (argument : Step rest)
    (more : MoreArguments argument.rest) : MoreArguments (comma :: rest) :=
  ⟨argument.expression :: more.others, more.rest,
    Nat.lt_succ_of_lt (Nat.lt_trans more.shorter argument.shorter)⟩

def MoreArguments.nothing (closing : Token) (rest : List Token) :
    MoreArguments (closing :: rest) :=
  ⟨[], rest, Nat.lt_succ_self _⟩

def additiveOperator? (token : Token) : Option BinaryOperator :=
  if token.isOperator ["+"] then some .add
  else if token.isOperator ["-"] then some .subtract
  else none

def multiplicativeOperator? (token : Token) : Option BinaryOperator :=
  if token.isOperator ["*"] then some .multiply
  else if token.isOperator ["/"] then some .divide
  else if token.isOperator ["%"] then some .modulo
  else none

def mayFollowOperator (token : Token) : Bool :=
  match token.kind with
  | .finish => false
  | .rightParenthesis => false
  | .comma => false
  | .factorial => false
  | .operator => token.text = "-"
  | _ => true

/-- Fails unless an operand or a minus sign follows an operator. -/
def requireOperand (stop : Token) (operator : String) (tokens : List Token) :
    Reading Unit :=
  let next := tokens.headD stop
  if mayFollowOperator next then
    pure ()
  else
    failAt (.expectedOperand operator) next

def reservedCall (token : Token) (first : Expr Float) (others : List (Expr Float)) :
    Reading (Expr Float) :=
  let count := others.length + 1
  if token.text = "log" then
    match others with
    | [] => pure (.unary .ln first)
    | [second] => pure (.binary .logBase first second)
    | _ => failAt (.arity "1 or 2" count) token
  else if token.text = "pow" || token.text = "min" || token.text = "max" then
    match others with
    | [second] =>
        if token.text = "pow" then
          pure (.binary .power first second)
        else
          pure (.call token.text first [second])
    | _ => failAt (.arity "2" count) token
  else
    match others with
    | [] =>
        match UnaryOperator.ofWord? token.text with
        | some operator => pure (.unary operator first)
        | none => .fail (.unknownFunction token.text)
    | _ => failAt (.arity "1" count) token

/-- The expression of a call of any other name.  The name `integral` with an
expression and a bare variable is the marker of an unknown integral. -/
def furtherCall (token : Token) (first : Expr Float) (others : List (Expr Float)) :
    Reading (Expr Float) := do
  let name := Text.toLower token.text
  match decide (name = "integral"), others with
  | true, [.var bound] => return .integral first bound
  | _, _ =>
      Traced.note (.furtherFunction name (others.length + 1))
      return .call name first others

def factorialMarks (operand : Expr Float) :
    (tokens : List Token) → Extension tokens
  | [] => .nothing operand []
  | token :: rest =>
      if token.kind = .factorial then
        let extension := factorialMarks (.unary .factorial operand) rest
        ⟨extension.expression, extension.rest,
          Nat.le_succ_of_le extension.notLonger⟩
      else
        .nothing operand (token :: rest)

def closing (stop : Token) : (tokens : List Token) → Reading (Closed tokens)
  | [] => failAt .expectedClosing stop
  | token :: rest =>
      if token.kind = .rightParenthesis then
        pure ⟨rest, Nat.lt_succ_self _⟩
      else
        failAt .expectedClosing token

def variableOf (token : Token) : Reading (Expr Float) :=
  Traced.ofExcept ((Expr.var? token.text).mapError .build)

mutual

def additive (stop : Token) (tokens : List Token) : Reading (Step tokens) := do
  let left ← multiplicative stop tokens
  have := left.shorter
  let sum ← additiveTail stop left.expression left.rest
  return left.followedBy sum
termination_by (tokens.length, 6)

def additiveTail (stop : Token) (left : Expr Float) (tokens : List Token) :
    Reading (Extension tokens) :=
  match tokens with
  | [] => pure (.nothing left [])
  | token :: rest =>
      match additiveOperator? token with
      | none => pure (.nothing left (token :: rest))
      | some operator => do
          requireOperand stop token.text rest
          let right ← multiplicative stop rest
          have := right.shorter
          let sum ← additiveTail stop (.binary operator left right.expression) right.rest
          return .through token right sum
termination_by (tokens.length, 5)

def multiplicative (stop : Token) (tokens : List Token) : Reading (Step tokens) := do
  let left ← signed stop tokens
  have := left.shorter
  let product ← multiplicativeTail stop left.expression left.rest
  return left.followedBy product
termination_by (tokens.length, 4)

def multiplicativeTail (stop : Token) (left : Expr Float) (tokens : List Token) :
    Reading (Extension tokens) :=
  match tokens with
  | [] => pure (.nothing left [])
  | token :: rest =>
      match multiplicativeOperator? token with
      | none => pure (.nothing left (token :: rest))
      | some operator => do
          requireOperand stop token.text rest
          let right ← signed stop rest
          have := right.shorter
          let product ←
            multiplicativeTail stop (.binary operator left right.expression) right.rest
          return .through token right product
termination_by (tokens.length, 3)

/-- Reads an expression with signs in front.  A plus sign changes nothing. -/
def signed (stop : Token) (tokens : List Token) : Reading (Step tokens) :=
  match tokens with
  | [] => powered stop []
  | token :: rest =>
      if token.isOperator ["-"] then do
        requireOperand stop token.text rest
        let operand ← signed stop rest
        return operand.under token (.unary .negate operand.expression)
      else if token.isOperator ["+"] then do
        requireOperand stop token.text rest
        let operand ← signed stop rest
        return operand.under token operand.expression
      else
        powered stop (token :: rest)
termination_by (tokens.length, 2)

/-- Reads a primary with factorial marks and an optional exponent. -/
def powered (stop : Token) (tokens : List Token) : Reading (Step tokens) := do
  let base ← primary stop tokens
  let marked := base.followedBy (factorialMarks base.expression base.rest)
  have := marked.shorter
  let power ← exponent stop marked.expression marked.rest
  return marked.followedBy power
termination_by (tokens.length, 1)

def exponent (stop : Token) (base : Expr Float) (tokens : List Token) :
    Reading (Extension tokens) :=
  match tokens with
  | [] => pure (.nothing base [])
  | token :: rest =>
      if token.isOperator ["^"] then do
        requireOperand stop token.text rest
        let raised ← signed stop rest
        return .under token raised (.binary .power base raised.expression)
      else
        pure (.nothing base (token :: rest))
termination_by (tokens.length, 0)

def primary (stop : Token) (tokens : List Token) : Reading (Step tokens) :=
  match tokens with
  | [] => failAt .unexpectedEnd stop
  | token :: rest =>
      match token.kind with
      | .number =>
          match Decimal.read? token.text with
          | some value => pure (.single (.const value) token rest)
          | none => .fail (.unreadableNumber token.text)
      | .constant =>
          match Token.constantValue? token.text with
          | some value => pure (.single (.const value) token rest)
          | none => .fail (.unknownConstant token.text)
      | .function =>
          match rest with
          | [] => failAt (.expectedOpening token.text) stop
          | next :: after =>
              if next.kind = .leftParenthesis then do
                let arguments ← callArguments stop after
                let expression ← reservedCall token arguments.first arguments.others
                return .called token next arguments expression
              else
                failAt (.expectedOpening token.text) next
      | .identifier =>
          match rest with
          | [] => do
              let expression ← variableOf token
              return .single expression token []
          | next :: after =>
              if next.kind = .leftParenthesis then do
                let arguments ← callArguments stop after
                let expression ← furtherCall token arguments.first arguments.others
                return .called token next arguments expression
              else do
                let expression ← variableOf token
                return .single expression token (next :: after)
      | .leftParenthesis =>
          let next := rest.headD stop
          if next.kind = .rightParenthesis then
            failAt .emptyParentheses next
          else do
            let inner ← additive stop rest
            let closed ← closing stop inner.rest
            return inner.enclosed token closed
      | .finish => failAt .unexpectedEnd token
      | _ => failAt .unexpectedToken token
termination_by (tokens.length, 0)

def callArguments (stop : Token) (tokens : List Token) :
    Reading (Arguments tokens) := do
  let next := tokens.headD stop
  if next.kind = .rightParenthesis then
    failAt .noArguments next
  else
    let first ← additive stop tokens
    have := first.shorter
    let more ← furtherArguments stop first.rest
    return .cons first more
termination_by (tokens.length, 7)

def furtherArguments (stop : Token) (tokens : List Token) :
    Reading (MoreArguments tokens) :=
  match tokens with
  | [] => failAt .expectedClosingOrComma stop
  | token :: rest =>
      if token.kind = .comma then do
        let argument ← additive stop rest
        have := argument.shorter
        let more ← furtherArguments stop argument.rest
        return .cons token argument more
      else if token.kind = .rightParenthesis then
        pure (.nothing token rest)
      else
        failAt .expectedClosingOrComma token
termination_by (tokens.length, 8)

end

/-- The end token that closes a list of tokens: the first one in it, or one just
after its last token if the list does not end with an end token. -/
def endToken (tokens : List Token) : Token :=
  match tokens.find? (·.kind = .finish) with
  | some token => token
  | none => ⟨.finish, "", (tokens.getLast?.map (·.position + 1)).getD 0⟩

end Parser

namespace Expr

def ofTokens (tokens : List Token) : Parser.Reading (Expr Float) := do
  let stop := Parser.endToken tokens
  let body := tokens.takeWhile (·.kind ≠ .finish)
  if body.isEmpty then
    Parser.failAt .empty stop
  else
    let result ← Parser.additive stop body
    match result.rest with
    | [] => return result.expression
    | token :: _ => Parser.failAt .expectedEnd token

def ofText (text : String) : Parser.Reading (Expr Float) := do
  Traced.note (.parsing text)
  let tokens ← Traced.ofExcept ((Token.scan text).mapError .lexical)
  ofTokens tokens

end Expr

end ExprCalculus
