import ExprCalculus.Proofs.Printing.Forms
import ExprCalculus.Proofs.Printing.Numerals

/-!
# Texts of phrases

A text renders a phrase with a tree if, wherever it stands, it is scanned as a form of
the phrase.  The texts that the printer puts together render what they are meant to,
provided an operand that binds too loosely stands in parentheses.
-/

namespace ExprCalculus

namespace Printing

open Token Grammar

/-- The text is scanned as a form of the phrase with the tree. -/
def Renders (phrase : Phrase) (text : String) (tree : Expr Float) : Prop :=
  ∀ position, ∃ tokens, Scans Separates position text.toList tokens ∧ Forms phrase tokens tree

/-- The text is scanned as the arguments of a call and its closing parenthesis. -/
def RendersArguments (text : String) (first : Expr Float) (others : List (Expr Float)) : Prop :=
  ∀ position, ∃ tokens, Scans Separates position text.toList tokens ∧
    FormsArguments tokens first others

variable {phrase leftPhrase rightPhrase : Phrase} {text leftText rightText : String}
  {tree operand leftTree rightTree : Expr Float}

section Singles

theorem opening : single? '(' = some (.leftParenthesis, "(") :=
  rfl

theorem closing : single? ')' = some (.rightParenthesis, ")") :=
  rfl

theorem comma : single? ',' = some (.comma, ",") :=
  rfl

theorem mark : single? '!' = some (.factorial, "!") :=
  rfl

/-- The symbol of an operator has a token of its own. -/
theorem exists_single {operator : BinaryOperator} {symbol : String}
    (isSymbol : operator.symbol? = some symbol) :
    ∃ character, symbol.toList = [character] ∧ single? character = some (.operator, symbol) := by
  cases operator with
  | logBase => cases isSymbol
  | add | subtract | multiply | divide | power | modulo =>
      cases isSymbol
      exact ⟨_, rfl, rfl⟩

theorem minus : single? '-' = some (.operator, "-") :=
  rfl

end Singles

namespace Renders

theorem looser {tight loose : Precedence} (order : loose ≤ tight)
    (renders : Renders (phraseOf tight) text tree) : Renders (phraseOf loose) text tree := by
  intro position
  obtain ⟨tokens, scans, forms⟩ := renders position
  exact ⟨tokens, scans, forms.looser order⟩

theorem of_primary (loose : Precedence) (renders : Renders .primary text tree) :
    Renders (phraseOf loose) text tree := by
  have tightest : loose ≤ Precedence.atom := by cases loose <;> decide
  have atom : Renders (phraseOf .atom) text tree := renders
  exact atom.looser tightest

theorem additive {tight : Precedence} (renders : Renders (phraseOf tight) text tree) :
    Renders (phraseOf .additive) text tree := by
  have loosest : Precedence.additive ≤ tight := by cases tight <;> decide
  exact renders.looser loosest

theorem spaceBefore (renders : Renders phrase text tree) : Renders phrase (" " ++ text) tree := by
  intro position
  obtain ⟨tokens, scans, forms⟩ := renders (position + 1)
  refine ⟨tokens, ?_, forms⟩
  rw [String.toList_append]
  exact (scans_blank Anything position).append scans fun _ _ => trivial

theorem spaceAfter (renders : Renders phrase text tree) : Renders phrase (text ++ " ") tree := by
  intro position
  obtain ⟨tokens, scans, forms⟩ := renders position
  refine ⟨tokens, ?_, forms⟩
  have both := scans.append (scans_blank Separates _) fun tail _ => separates_blank tail
  rw [List.append_nil] at both
  rw [String.toList_append]
  exact both

/-- A text in parentheses. -/
theorem enclosed (renders : Renders .additive text tree) :
    Renders .primary ("(" ++ text ++ ")") tree := by
  intro position
  obtain ⟨tokens, scans, forms⟩ := renders (position + 1)
  have front := scans_single opening Anything position
  have back := scans_single closing Separates (position + 1 + text.toList.length)
  have inside := scans.append back fun tail _ => separates_single closing tail
  have whole := front.append inside fun _ _ => trivial
  rw [String.toList_append, String.toList_append, List.append_assoc]
  exact ⟨_, whole, forms.enclosed rfl rfl⟩

theorem parenthesizedIf {tight loose : Precedence} {condition : Bool}
    (order : condition = false → loose ≤ tight) (renders : Renders (phraseOf tight) text tree) :
    Renders (phraseOf loose) (Expr.parenthesizedIf condition text) tree := by
  unfold Expr.parenthesizedIf
  cases condition with
  | false => exact renders.looser (order rfl)
  | true =>
      have inside := renders.additive
      exact of_primary loose inside.enclosed

theorem negation (renders : Renders .unary text operand) :
    Renders .unary ("-" ++ text) (.unary .negate operand) := by
  intro position
  obtain ⟨tokens, scans, forms⟩ := renders (position + 1)
  have front := scans_single minus Anything position
  have whole := front.append scans fun _ _ => trivial
  rw [String.toList_append]
  exact ⟨_, whole, forms.negation ⟨rfl, rfl⟩⟩

theorem factorial (renders : Renders .postfixed text operand) :
    Renders .postfixed (text ++ "!") (.unary .factorial operand) := by
  intro position
  obtain ⟨tokens, scans, forms⟩ := renders position
  have back := scans_single mark Separates (position + text.toList.length)
  have whole := scans.append back fun tail _ => separates_single mark tail
  rw [String.toList_append]
  exact ⟨_, whole, forms.factorial rfl⟩

/-- Two texts with the symbol of an operator between them. -/
theorem between {operator : BinaryOperator} {symbol : String}
    (isSymbol : operator.symbol? = some symbol)
    (combine : ∀ token all middle rest, IsSign token operator →
      Derives leftPhrase all (token :: middle) leftTree → Derives rightPhrase middle rest rightTree →
        Derives phrase all rest (.binary operator leftTree rightTree))
    (left : Renders leftPhrase leftText leftTree) (right : Renders rightPhrase rightText rightTree) :
    Renders phrase (leftText ++ symbol ++ rightText) (.binary operator leftTree rightTree) := by
  obtain ⟨character, isText, single⟩ := exists_single isSymbol
  intro position
  obtain ⟨leftTokens, leftScans, leftForms⟩ := left position
  obtain ⟨rightTokens, rightScans, rightForms⟩ := right (position + leftText.toList.length + 1)
  have sign := scans_single single Anything (position + leftText.toList.length)
  have after := sign.append rightScans fun _ _ => trivial
  have whole := leftScans.append after fun tail _ => separates_single single _
  have isSign : IsSign ⟨.operator, symbol, (position + leftText.toList.length : Nat)⟩ operator :=
    ⟨rfl, isSymbol⟩
  rw [String.toList_append, String.toList_append, List.append_assoc, isText]
  exact ⟨_, whole, leftForms.between isSign (combine _ · · · isSign) rightForms⟩

theorem sum {operator : BinaryOperator} {symbol : String} (isSymbol : operator.symbol? = some symbol)
    (isAdditive : operator.precedence = .additive) (left : Renders .additive leftText leftTree)
    (right : Renders .multiplicative rightText rightTree) :
    Renders .additive (leftText ++ symbol ++ rightText) (.binary operator leftTree rightTree) :=
  between isSymbol (fun _ _ _ _ isSign first second => .sum first isSign isAdditive second) left right

theorem multiple {operator : BinaryOperator} {symbol : String}
    (isSymbol : operator.symbol? = some symbol)
    (isMultiplicative : operator.precedence = .multiplicative)
    (left : Renders .multiplicative leftText leftTree) (right : Renders .unary rightText rightTree) :
    Renders .multiplicative (leftText ++ symbol ++ rightText)
      (.binary operator leftTree rightTree) :=
  between isSymbol (fun _ _ _ _ isSign first second => .multiple first isSign isMultiplicative second)
    left right

theorem raised (left : Renders .postfixed leftText leftTree)
    (right : Renders .unary rightText rightTree) :
    Renders .power (leftText ++ "^" ++ rightText) (.binary .power leftTree rightTree) :=
  between rfl (fun _ _ _ _ isSign first second => .raised first isSign second) left right

end Renders

section Leaves

theorem renders_numeral {value : Float} (reads : Expr.ReadsAs text value) :
    Renders .primary text (.const value) := by
  intro position
  obtain ⟨decimal, isLiteral, isValue⟩ := reads
  have readable : Decimal.read? text = some value := by
    rw [Decimal.read?, isLiteral.readCharacters?, isValue]
  have scans := scans_literal isLiteral position
  rw [String.ofList_toList] at scans
  exact ⟨_, scans, .single nofun fun rest _ => .number rfl readable⟩

theorem renders_constantName {value : Float} (named : isName text.toList = true)
    (isConstant : ∀ position : Nat, ofName text position = ⟨.constant, text, position⟩)
    (isValue : constantValue? text = some value) : Renders .primary text (.const value) := by
  intro position
  have scans := scans_name named position
  rw [String.ofList_toList, isConstant] at scans
  exact ⟨_, scans, .single nofun fun rest _ => .constant rfl isValue⟩

theorem renders_variable {name : String} (identifier : IsIdentifier name) :
    Renders .primary name (.var name) := by
  intro position
  obtain ⟨named, isName⟩ := isName_of_identifier identifier
  have scans := scans_name named position
  rw [String.ofList_toList, isName] at scans
  exact ⟨_, scans, .single nofun fun rest detached => .variableName rfl detached⟩

end Leaves

section Calls

variable {name : String} {first second : Expr Float} {others : List (Expr Float)}

theorem RendersArguments.last (argument : Renders .additive text first) :
    RendersArguments (text ++ ")") first [] := by
  intro position
  obtain ⟨tokens, scans, forms⟩ := argument position
  have back := scans_single closing Separates (position + text.toList.length)
  have whole := scans.append back fun tail _ => separates_single closing tail
  rw [String.toList_append]
  exact ⟨_, whole, .last rfl forms⟩

theorem RendersArguments.more (argument : Renders .additive leftText first)
    (further : RendersArguments rightText second others) :
    RendersArguments (leftText ++ ", " ++ rightText) first (second :: others) := by
  intro position
  obtain ⟨tokens, scans, forms⟩ := argument position
  obtain ⟨later, laterScans, laterForms⟩ := further (position + leftText.toList.length + 1 + 1)
  have space := (scans_blank Anything _).append laterScans fun _ _ => trivial
  have sign := (scans_single comma Anything _).append space fun _ _ => trivial
  have whole := scans.append sign fun tail _ => separates_single comma _
  rw [String.toList_append, String.toList_append, List.append_assoc]
  exact ⟨_, whole, .more rfl forms laterForms⟩

/-- Several arguments with commas between them. -/
theorem rendersArguments_intercalate {texts : List String} (argument : Renders .additive text first)
    (further : List.Forall₂ (Renders .additive) texts others) :
    RendersArguments (", ".intercalate (text :: texts) ++ ")") first others := by
  induction further generalizing text first with
  | nil =>
      rw [String.intercalate_singleton]
      exact .last argument
  | cons second _ ih =>
      rw [String.intercalate_cons_cons, String.append_assoc]
      exact .more argument (ih second)

theorem scans_called {tokens : List Token} {position : Nat} (named : isName name.toList = true)
    (scans : Scans Separates (position + name.toList.length + 1) text.toList tokens) :
    Scans Separates position (name ++ "(" ++ text).toList
      (ofName name position :: ⟨.leftParenthesis, "(", (position + name.toList.length : Nat)⟩ ::
        tokens) := by
  have front := scans_name named position
  have after := (scans_single opening Anything _).append scans fun _ _ => trivial
  have whole := front.append after fun tail _ => separates_single opening _
  rw [String.ofList_toList] at whole
  rw [String.toList_append, String.toList_append, List.append_assoc]
  exact whole

/-- A call of a reserved name. -/
theorem renders_keyword (reserved : name ∈ functionWords)
    (arguments : RendersArguments text first others) (called : KeywordCall name first others tree) :
    Renders .primary (name ++ "(" ++ text) tree := by
  intro position
  obtain ⟨named, isFunction⟩ := ofName_functionWord reserved
  obtain ⟨tokens, scans, forms⟩ := arguments (position + name.toList.length + 1)
  have whole := scans_called named scans
  rw [isFunction] at whole
  exact ⟨_, whole, forms.keyword rfl rfl called⟩

/-- A call of another name. -/
theorem renders_named (identifier : IsIdentifier name)
    (arguments : RendersArguments text first others) (called : NamedCall name first others tree) :
    Renders .primary (name ++ "(" ++ text) tree := by
  intro position
  obtain ⟨named, isName⟩ := isName_of_identifier identifier
  obtain ⟨tokens, scans, forms⟩ := arguments (position + name.toList.length + 1)
  have whole := scans_called named scans
  rw [isName] at whole
  exact ⟨_, whole, forms.named rfl rfl called⟩

end Calls

end Printing

end ExprCalculus
