import ExprCalculus.Proofs.Grammar.Derivation
import ExprCalculus.Proofs.Printing.Scanning

/-!
# Forms of phrases

Some tokens form a phrase with a tree if they are derived as such in front of any
tokens that do not open a call, and if operators are kept apart wherever they are put.
Forms are put together as the grammar does it, and a form of a tight phrase is one of
every looser phrase.
-/

namespace ExprCalculus

namespace Grammar

variable {tokens left right : List Token} {token : Token} {tree operand leftTree rightTree : Expr Float}

section Insertion

/-- Tokens that may stand between any two others: operators are kept apart inside them
and at both ends. -/
def Insertable (tokens : List Token) : Prop :=
  ∀ before after, (before :: (tokens ++ [after])).IsChain MayFollow

theorem Insertable.isChain (insertable : Insertable tokens) : tokens.IsChain MayFollow := by
  have anywhere := insertable ⟨.finish, "", 0⟩ ⟨.finish, "", 0⟩
  exact anywhere.tail.left_of_append

theorem insertable_single (notOperator : token.kind ≠ .operator) : Insertable [token] := by
  intro before after
  have mayFollow : MayFollow before token := fun _ kind => absurd kind notOperator
  have mayPrecede : MayFollow token after := fun kind => absurd kind notOperator
  exact List.isChain_cons_cons.mpr ⟨mayFollow, List.isChain_cons_cons.mpr ⟨mayPrecede, List.isChain_singleton _⟩⟩

/-- An operator may stand between insertable tokens. -/
theorem Insertable.between (leftInsertable : Insertable left) (token : Token)
    (rightInsertable : Insertable right) : Insertable (left ++ token :: right) := by
  intro before after
  rw [List.append_assoc, List.cons_append, ← List.cons_append, List.isChain_split]
  exact ⟨leftInsertable before token, rightInsertable token after⟩

theorem Insertable.append (leftInsertable : Insertable left) (rightInsertable : Insertable right) :
    Insertable (left ++ right) := by
  cases right with
  | nil =>
      rw [List.append_nil]
      exact leftInsertable
  | cons token others =>
      intro before after
      rw [List.append_assoc, List.cons_append, ← List.cons_append, List.isChain_split]
      exact ⟨leftInsertable before token, (rightInsertable token after).tail⟩

theorem Insertable.negated (isSign : IsSign token .subtract) (insertable : Insertable tokens) :
    Insertable (token :: tokens) := by
  intro before after
  refine List.isChain_cons_cons.mpr ⟨fun _ _ => ?_, insertable token after⟩
  exact (Option.some.inj isSign.2).symm

end Insertion

/-- Tokens that do not open a call of the name before them. -/
def Detached (rest : List Token) : Prop :=
  ∀ next ∈ rest.head?, next.kind ≠ .leftParenthesis

theorem detached_cons {rest : List Token} (kind : token.kind ≠ .leftParenthesis) :
    Detached (token :: rest) := by
  rintro _ ⟨⟩
  exact kind

/-- The tokens form a phrase with a tree, whatever follows. -/
structure Forms (phrase : Phrase) (tokens : List Token) (tree : Expr Float) : Prop where
  derives : ∀ rest, Detached rest → Derives phrase (tokens ++ rest) rest tree
  insertable : Insertable tokens

/-- The tokens form the arguments of a call and end with its closing parenthesis. -/
structure FormsArguments (tokens : List Token) (first : Expr Float) (others : List (Expr Float)) :
    Prop where
  derives : ∀ rest, DerivesArguments (tokens ++ rest) rest first others
  insertable : Insertable tokens

def phraseOf : Precedence → Phrase
  | .additive => .additive
  | .multiplicative => .multiplicative
  | .unary => .unary
  | .power => .power
  | .postfixed => .postfixed
  | .atom => .primary

/-- A phrase is a phrase of every looser precedence. -/
theorem Derives.looser {tight loose : Precedence} {rest : List Token} (order : loose ≤ tight)
    (derives : Derives (phraseOf tight) tokens rest tree) :
    Derives (phraseOf loose) tokens rest tree := by
  cases loose <;> cases tight <;> first
    | exact absurd order (by decide)
    | exact derives
    | exact .product derives
    | exact .product (.factor derives)
    | exact .product (.factor (.unsigned derives))
    | exact .product (.factor (.unsigned (.base derives)))
    | exact .product (.factor (.unsigned (.base (.unmarked derives))))
    | exact .factor derives
    | exact .factor (.unsigned derives)
    | exact .factor (.unsigned (.base derives))
    | exact .factor (.unsigned (.base (.unmarked derives)))
    | exact .unsigned derives
    | exact .unsigned (.base derives)
    | exact .unsigned (.base (.unmarked derives))
    | exact .base derives
    | exact .base (.unmarked derives)
    | exact .unmarked derives

namespace Forms

theorem looser {tight loose : Precedence} (order : loose ≤ tight)
    (forms : Forms (phraseOf tight) tokens tree) : Forms (phraseOf loose) tokens tree :=
  ⟨fun rest detached => (forms.derives rest detached).looser order, forms.insertable⟩

/-- A primary of one token. -/
theorem single {phrase : Phrase} (notOperator : token.kind ≠ .operator)
    (derives : ∀ rest, Detached rest → Derives phrase (token :: rest) rest tree) :
    Forms phrase [token] tree :=
  ⟨derives, insertable_single notOperator⟩

theorem enclosed {opening closing : Token} (opens : opening.kind = .leftParenthesis)
    (closes : closing.kind = .rightParenthesis) (inner : Forms .additive tokens tree) :
    Forms .primary (opening :: (tokens ++ [closing])) tree := by
  refine ⟨fun rest _ => ?_, ?_⟩
  · rw [List.cons_append, List.append_assoc]
    exact .parentheses opens closes (inner.derives _ (detached_cons (by simp [closes])))
  · have front : Insertable [opening] := insertable_single (by simp [opens])
    have back : Insertable [closing] := insertable_single (by simp [closes])
    exact front.append (inner.insertable.append back)

theorem negation (isSign : IsSign token .subtract) (inner : Forms .unary tokens operand) :
    Forms .unary (token :: tokens) (.unary .negate operand) :=
  ⟨fun rest detached => .negation isSign (inner.derives rest detached),
    inner.insertable.negated isSign⟩

theorem factorial (isMark : token.kind = .factorial) (inner : Forms .postfixed tokens operand) :
    Forms .postfixed (tokens ++ [token]) (.unary .factorial operand) := by
  refine ⟨fun rest _ => ?_, inner.insertable.append (insertable_single (by simp [isMark]))⟩
  rw [List.append_assoc]
  exact .factorial (inner.derives _ (detached_cons (by simp [isMark]))) isMark

/-- Two forms with the sign of an operator between them. -/
theorem between {phrase leftPhrase rightPhrase : Phrase} {operator : BinaryOperator}
    (isSign : IsSign token operator)
    (combine : ∀ all middle rest, Derives leftPhrase all (token :: middle) leftTree →
      Derives rightPhrase middle rest rightTree →
        Derives phrase all rest (.binary operator leftTree rightTree))
    (leftForms : Forms leftPhrase left leftTree) (rightForms : Forms rightPhrase right rightTree) :
    Forms phrase (left ++ token :: right) (.binary operator leftTree rightTree) := by
  refine ⟨fun rest detached => ?_, leftForms.insertable.between token rightForms.insertable⟩
  rw [List.append_assoc]
  refine combine _ _ rest (leftForms.derives _ (detached_cons ?_)) (rightForms.derives rest detached)
  simp [isSign.1]

end Forms

namespace FormsArguments

variable {first : Expr Float} {others : List (Expr Float)}

theorem last (closes : token.kind = .rightParenthesis) (argument : Forms .additive tokens first) :
    FormsArguments (tokens ++ [token]) first [] := by
  refine ⟨fun rest => ?_, argument.insertable.append (insertable_single (by simp [closes]))⟩
  rw [List.append_assoc]
  exact .last (argument.derives _ (detached_cons (by simp [closes]))) closes

theorem more {second : Expr Float} {later : List Token} (isComma : token.kind = .comma)
    (argument : Forms .additive tokens first) (further : FormsArguments later second others) :
    FormsArguments (tokens ++ token :: later) first (second :: others) := by
  refine ⟨fun rest => ?_, argument.insertable.between token further.insertable⟩
  rw [List.append_assoc]
  exact .more (argument.derives _ (detached_cons (by simp [isComma]))) isComma (further.derives rest)

theorem insertable_called {opening : Token} (notOperator : token.kind ≠ .operator)
    (opens : opening.kind = .leftParenthesis) (arguments : FormsArguments tokens first others) :
    Insertable (token :: opening :: tokens) := by
  have name := insertable_single notOperator
  have front : Insertable [opening] := insertable_single (by simp [opens])
  exact name.append (front.append arguments.insertable)

/-- A call of a reserved name. -/
theorem keyword {opening : Token} (isFunction : token.kind = .function)
    (opens : opening.kind = .leftParenthesis) (arguments : FormsArguments tokens first others)
    (called : KeywordCall token.text first others tree) :
    Forms .primary (token :: opening :: tokens) tree :=
  ⟨fun rest _ => .keyword isFunction opens (arguments.derives rest) called,
    arguments.insertable_called (by simp [isFunction]) opens⟩

/-- A call of another name. -/
theorem named {opening : Token} (isName : token.kind = .identifier)
    (opens : opening.kind = .leftParenthesis) (arguments : FormsArguments tokens first others)
    (called : NamedCall token.text first others tree) :
    Forms .primary (token :: opening :: tokens) tree :=
  ⟨fun rest _ => .named isName opens (arguments.derives rest) called,
    arguments.insertable_called (by simp [isName]) opens⟩

end FormsArguments

end Grammar

end ExprCalculus
