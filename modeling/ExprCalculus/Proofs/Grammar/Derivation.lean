import ExprCalculus.Expr.Parser
import Mathlib.Data.List.Chain

/-!
# The grammar of expressions

The phrases of the grammar, loosest first, are sums, products, signed
expressions, powers, expressions with factorial marks, and primaries.  A
derivation splits the front of a list of tokens off as a phrase and gives the
phrase its expression; what is left of the tokens is part of the relation, since
a name is a variable only if no opening parenthesis comes next.

The grammar alone would admit a plus sign in front of any operand.  After an
operator the language admits no operator but the minus sign, which is a condition
on neighbouring tokens and not on derivations.
-/

namespace ExprCalculus

namespace Grammar

/-- The phrases of the grammar, loosest first. -/
inductive Phrase where
  | additive
  | multiplicative
  | unary
  | power
  | postfixed
  | primary

/-- The expression that a reserved word makes of the arguments of its call.
Words other than these, and other numbers of arguments, make none. -/
inductive KeywordCall :
    String → Expr Float → List (Expr Float) → Expr Float → Prop where
  | naturalLogarithm (argument : Expr Float) :
      KeywordCall "log" argument [] (.unary .ln argument)
  | logarithm (argument base : Expr Float) :
      KeywordCall "log" argument [base] (.binary .logBase argument base)
  | power (base exponent : Expr Float) :
      KeywordCall "pow" base [exponent] (.binary .power base exponent)
  | minimum (first second : Expr Float) :
      KeywordCall "min" first [second] (.call "min" first [second])
  | maximum (first second : Expr Float) :
      KeywordCall "max" first [second] (.call "max" first [second])
  | unary {word : String} {operator : UnaryOperator} (argument : Expr Float)
      (known : UnaryOperator.ofWord? word = some operator) :
      KeywordCall word argument [] (.unary operator argument)

/-- The expression that any other name makes of the arguments of its call: the
marker of an integral for the name `integral` with an expression and a bare
variable, and otherwise a call of the name in lower case. -/
inductive NamedCall :
    String → Expr Float → List (Expr Float) → Expr Float → Prop where
  | marker {name : String} (integrand : Expr Float) (bound : String)
      (named : Text.toLower name = "integral") :
      NamedCall name integrand [.var bound] (.integral integrand bound)
  | call {name : String} (first : Expr Float) (others : List (Expr Float))
      (notMarker : ∀ bound, Text.toLower name = "integral" → others ≠ [.var bound]) :
      NamedCall name first others (.call (Text.toLower name) first others)

def IsSign (token : Token) (operator : BinaryOperator) : Prop :=
  token.kind = .operator ∧ operator.symbol? = some token.text

end Grammar

namespace Token

/-- The text of the token fits its kind: a number can be read, a reserved name is
reserved, a name is not empty, and an operator is the sign of one.  An end token
stands at the end only. -/
def IsLexeme (token : Token) : Prop :=
  match token.kind with
  | .number => (Decimal.read? token.text).isSome
  | .constant => (constantValue? token.text).isSome
  | .function => token.text ∈ functionWords
  | .identifier => token.text ≠ ""
  | .operator => ∃ operator, Grammar.IsSign token operator
  | .finish => False
  | _ => True

end Token

namespace Grammar

mutual

/-- Some tokens at the front form a phrase with the given expression, and the
second list of tokens is what comes after them. -/
inductive Derives : Phrase → List Token → List Token → Expr Float → Prop where
  | product {tokens rest tree} :
      Derives .multiplicative tokens rest tree → Derives .additive tokens rest tree
  | sum {tokens token middle rest left right operator} :
      Derives .additive tokens (token :: middle) left →
      IsSign token operator → operator.precedence = .additive →
      Derives .multiplicative middle rest right →
      Derives .additive tokens rest (.binary operator left right)
  | factor {tokens rest tree} :
      Derives .unary tokens rest tree → Derives .multiplicative tokens rest tree
  | multiple {tokens token middle rest left right operator} :
      Derives .multiplicative tokens (token :: middle) left →
      IsSign token operator → operator.precedence = .multiplicative →
      Derives .unary middle rest right →
      Derives .multiplicative tokens rest (.binary operator left right)
  | negation {token middle rest operand} :
      IsSign token .subtract → Derives .unary middle rest operand →
      Derives .unary (token :: middle) rest (.unary .negate operand)
  | affirmation {token middle rest operand} :
      IsSign token .add → Derives .unary middle rest operand →
      Derives .unary (token :: middle) rest operand
  | unsigned {tokens rest tree} :
      Derives .power tokens rest tree → Derives .unary tokens rest tree
  | base {tokens rest tree} :
      Derives .postfixed tokens rest tree → Derives .power tokens rest tree
  | raised {tokens token middle rest base exponent} :
      Derives .postfixed tokens (token :: middle) base →
      IsSign token .power → Derives .unary middle rest exponent →
      Derives .power tokens rest (.binary .power base exponent)
  | unmarked {tokens rest tree} :
      Derives .primary tokens rest tree → Derives .postfixed tokens rest tree
  | factorial {tokens token rest operand} :
      Derives .postfixed tokens (token :: rest) operand → token.kind = .factorial →
      Derives .postfixed tokens rest (.unary .factorial operand)
  | number {token rest value} :
      token.kind = .number → Decimal.read? token.text = some value →
      Derives .primary (token :: rest) rest (.const value)
  | constant {token rest value} :
      token.kind = .constant → Token.constantValue? token.text = some value →
      Derives .primary (token :: rest) rest (.const value)
  | variableName {token rest} :
      token.kind = .identifier →
      (∀ next ∈ rest.head?, next.kind ≠ .leftParenthesis) →
      Derives .primary (token :: rest) rest (.var token.text)
  | keyword {token opening inner rest first others tree} :
      token.kind = .function → opening.kind = .leftParenthesis →
      DerivesArguments inner rest first others →
      KeywordCall token.text first others tree →
      Derives .primary (token :: opening :: inner) rest tree
  | named {token opening inner rest first others tree} :
      token.kind = .identifier → opening.kind = .leftParenthesis →
      DerivesArguments inner rest first others →
      NamedCall token.text first others tree →
      Derives .primary (token :: opening :: inner) rest tree
  | parentheses {opening closing inner rest tree} :
      opening.kind = .leftParenthesis → closing.kind = .rightParenthesis →
      Derives .additive inner (closing :: rest) tree →
      Derives .primary (opening :: inner) rest tree

/-- Some tokens at the front are sums between commas and a closing parenthesis
after them. -/
inductive DerivesArguments :
    List Token → List Token → Expr Float → List (Expr Float) → Prop where
  | last {tokens closing rest first} :
      Derives .additive tokens (closing :: rest) first →
      closing.kind = .rightParenthesis →
      DerivesArguments tokens rest first []
  | more {tokens comma middle rest first second others} :
      Derives .additive tokens (comma :: middle) first → comma.kind = .comma →
      DerivesArguments middle rest second others →
      DerivesArguments tokens rest first (second :: others)

end

/-- Whether the second token may stand directly after the first: an operator is
followed by no operator but the minus sign. -/
def MayFollow (token next : Token) : Prop :=
  token.kind = .operator → next.kind = .operator → next.text = "-"

/-- Tokens with texts that fit their kinds, among which operators are kept apart. -/
structure Admissible (tokens : List Token) : Prop where
  lexemes : ∀ token ∈ tokens, token.IsLexeme
  apart : tokens.IsChain MayFollow

namespace Admissible

variable {tokens rest : List Token} {token : Token}

theorem suffix (admissible : Admissible tokens) (later : rest <:+ tokens) :
    Admissible rest :=
  ⟨fun token member => admissible.lexemes token (later.subset member),
    admissible.apart.suffix later⟩

theorem tail (admissible : Admissible (token :: rest)) : Admissible rest :=
  admissible.suffix (List.suffix_cons token rest)

end Admissible

def Phrase.allowsSign : Phrase → Bool
  | .additive | .multiplicative | .unary => true
  | .power | .postfixed | .primary => false

def StartsOperand (token : Token) : Prop :=
  token.kind = .number ∨ token.kind = .constant ∨ token.kind = .identifier
    ∨ token.kind = .function ∨ token.kind = .leftParenthesis

/-- Some tokens, the first of which may start the phrase, stand in front of the
rest. -/
def Consumes (phrase : Phrase) (tokens rest : List Token) : Prop :=
  ∃ token consumed,
    (StartsOperand token ∨ (phrase.allowsSign = true ∧ token.kind = .operator)) ∧
      tokens = token :: (consumed ++ rest)

namespace Consumes

variable {phrase : Phrase} {tokens middle rest : List Token} {token : Token}

theorem suffix (consumes : Consumes phrase tokens rest) : rest <:+ tokens := by
  obtain ⟨start, consumed, -, rfl⟩ := consumes
  exact ⟨start :: consumed, by simp⟩

theorem length_lt (consumes : Consumes phrase tokens rest) :
    rest.length < tokens.length := by
  obtain ⟨start, consumed, -, rfl⟩ := consumes
  simp only [List.length_cons, List.length_append]
  omega

theorem looser {wider : Phrase} (consumes : Consumes phrase tokens rest)
    (allows : phrase.allowsSign = true → wider.allowsSign = true) :
    Consumes wider tokens rest := by
  obtain ⟨start, consumed, starts, shape⟩ := consumes
  exact ⟨start, consumed, starts.imp_right fun sign => ⟨allows sign.1, sign.2⟩, shape⟩

theorem through (first : Consumes phrase tokens (token :: middle))
    (later : rest <:+ middle) : Consumes phrase tokens rest := by
  obtain ⟨start, consumed, starts, rfl⟩ := first
  obtain ⟨between, rfl⟩ := later
  exact ⟨start, consumed ++ token :: between, starts, by simp⟩

theorem cons (starts : StartsOperand token) (later : rest <:+ middle) :
    Consumes phrase (token :: middle) rest := by
  obtain ⟨between, rfl⟩ := later
  exact ⟨token, between, .inl starts, rfl⟩

theorem sign {operator : BinaryOperator} (isSign : IsSign token operator)
    (later : rest <:+ middle) : Consumes .unary (token :: middle) rest := by
  obtain ⟨between, rfl⟩ := later
  exact ⟨token, between, .inr ⟨rfl, isSign.1⟩, rfl⟩

end Consumes

mutual

/-- A phrase is not empty, and its first token is one that starts the phrase. -/
theorem Derives.consumes {phrase : Phrase} {tokens rest : List Token}
    {tree : Expr Float} : Derives phrase tokens rest tree → Consumes phrase tokens rest
  | .product first => first.consumes.looser id
  | .sum left _ _ right => left.consumes.through right.consumes.suffix
  | .factor first => first.consumes.looser id
  | .multiple left _ _ right => left.consumes.through right.consumes.suffix
  | .negation sign operand => .sign sign operand.consumes.suffix
  | .affirmation sign operand => .sign sign operand.consumes.suffix
  | .unsigned first => first.consumes.looser fun _ => rfl
  | .base first => first.consumes.looser id
  | .raised base _ exponent => base.consumes.through exponent.consumes.suffix
  | .unmarked first => first.consumes.looser id
  | .factorial operand _ => operand.consumes.through List.suffix_rfl
  | .number kind _ => .cons (by simp [StartsOperand, kind]) List.suffix_rfl
  | .constant kind _ => .cons (by simp [StartsOperand, kind]) List.suffix_rfl
  | .variableName kind _ => .cons (by simp [StartsOperand, kind]) List.suffix_rfl
  | .keyword kind _ arguments _ =>
      .cons (by simp [StartsOperand, kind])
        (arguments.consumes.suffix.trans (List.suffix_cons _ _))
  | .named kind _ arguments _ =>
      .cons (by simp [StartsOperand, kind])
        (arguments.consumes.suffix.trans (List.suffix_cons _ _))
  | .parentheses opening _ inner =>
      .cons (by simp [StartsOperand, opening])
        ((List.suffix_cons _ _).trans inner.consumes.suffix)

/-- Arguments are not empty, and their first token is one that starts a sum. -/
theorem DerivesArguments.consumes {tokens rest : List Token} {first : Expr Float}
    {others : List (Expr Float)} :
    DerivesArguments tokens rest first others → Consumes .additive tokens rest
  | .last first _ => first.consumes.through List.suffix_rfl
  | .more first _ more => first.consumes.through more.consumes.suffix

end

/-- The first token of a phrase that allows no sign is no operator. -/
theorem Derives.head_not_operator {phrase : Phrase} {tokens rest : List Token}
    {tree : Expr Float} (derives : Derives phrase tokens rest tree)
    (tight : phrase.allowsSign = false) :
    ∀ token ∈ tokens.head?, token.kind ≠ .operator := by
  obtain ⟨start, consumed, starts, rfl⟩ := derives.consumes
  rintro _ ⟨⟩ kind
  simp [StartsOperand, kind, tight] at starts

end Grammar

end ExprCalculus
