import ExprCalculus.Proofs.Printing.Lexemes
import ExprCalculus.Proofs.Printing.Trees

/-!
# Printing and reading

Printing a printable tree and reading the text gives the tree back, with its constants
spelled out.  The trees that are read from plain texts are printable, and none of their
constants needs to be spelled out, so they are read back as they are.
-/

namespace ExprCalculus

namespace Token

/-- No number in the text is beyond the largest double. -/
def NoOverflow (text : String) : Prop :=
  ∀ tokens, scan text = .ok tokens → ∀ token ∈ tokens, token.kind = .number →
    Decimal.read? token.text ≠ some Binary64.infinity

/-- Tokens that are taken for the same when they are read again. -/
structure Settled (tokens : List Token) : Prop where
  rescans : ∀ token ∈ tokens, token.Rescans
  bounded : ∀ token ∈ tokens, token.kind = .number →
    Decimal.read? token.text ≠ some Binary64.infinity

variable {tokens rest : List Token} {token : Token}

theorem Settled.suffix (settled : Settled tokens) (later : rest <:+ tokens) : Settled rest :=
  ⟨fun token member => settled.rescans token (later.subset member),
    fun token member => settled.bounded token (later.subset member)⟩

theorem Settled.behind (settled : Settled tokens) (later : token :: rest <:+ tokens) :
    Settled rest :=
  settled.suffix ((List.suffix_cons token rest).trans later)

theorem Settled.tail (settled : Settled (token :: rest)) : Settled rest :=
  settled.behind List.suffix_rfl

theorem Settled.spelled (settled : Settled (token :: rest)) (isNumber : token.kind = .number)
    {value : Float} (isValue : Decimal.read? token.text = some value) :
    Expr.spelled value = .const value := by
  have rescans := settled.rescans token List.mem_cons_self
  rcases rescans.number isNumber value isValue with infinite | same
  · rw [infinite] at isValue
    exact absurd isValue (settled.bounded token List.mem_cons_self isNumber)
  · exact same

end Token

namespace Expr

/-- A printable tree whose constants are spelled as they are. -/
structure Stable (tree : Expr Float) : Prop where
  printable : tree.Printable
  unchanged : tree.normalized = tree

/-- Several printable trees whose constants are spelled as they are. -/
structure AllStable (trees : List (Expr Float)) : Prop where
  printable : AllPrintable trees
  unchanged : allNormalized trees = trees

variable {tree operand left right first : Expr Float} {others : List (Expr Float)} {name : String}

theorem allStable_nil : AllStable [] :=
  ⟨trivial, rfl⟩

theorem AllStable.cons (stable : tree.Stable) (allStable : AllStable others) :
    AllStable (tree :: others) := by
  refine ⟨⟨stable.printable, allStable.printable⟩, ?_⟩
  rw [allNormalized, stable.unchanged, allStable.unchanged]

theorem AllStable.single (allStable : AllStable [tree]) : tree.Stable := by
  obtain ⟨printable, unchanged⟩ := allStable
  rw [AllPrintable] at printable
  rw [allNormalized] at unchanged
  exact ⟨printable.1, (List.cons_eq_cons.mp unchanged).1⟩

theorem stable_const {value : Float} (same : spelled value = .const value) :
    (Expr.const value).Stable :=
  ⟨trivial, same⟩

theorem stable_var (identifier : Token.IsIdentifier name) : (Expr.var name : Expr Float).Stable :=
  ⟨identifier, rfl⟩

theorem Stable.unary (stable : operand.Stable) (operator : UnaryOperator) :
    (Expr.unary operator operand).Stable := by
  refine ⟨stable.printable, ?_⟩
  rw [normalized, stable.unchanged]

theorem Stable.binary (leftStable : left.Stable) (operator : BinaryOperator)
    (rightStable : right.Stable) : (Expr.binary operator left right).Stable := by
  refine ⟨⟨leftStable.printable, rightStable.printable⟩, ?_⟩
  rw [normalized, leftStable.unchanged, rightStable.unchanged]

theorem Stable.call (stable : first.Stable) (allStable : AllStable others)
    (printable : PrintableCall name others) : (Expr.call name first others).Stable := by
  refine ⟨⟨printable, stable.printable, allStable.printable⟩, ?_⟩
  rw [normalized, stable.unchanged, allStable.unchanged]

theorem Stable.integral (stable : operand.Stable) (identifier : Token.IsIdentifier name) :
    (Expr.integral operand name).Stable := by
  refine ⟨⟨stable.printable, identifier⟩, ?_⟩
  rw [normalized, stable.unchanged]

end Expr

namespace Grammar

open Token ExprCalculus.Expr

variable {first tree : Expr Float} {others : List (Expr Float)} {word : String}

theorem KeywordCall.stable (called : KeywordCall word first others tree) (stable : first.Stable)
    (allStable : AllStable others) : tree.Stable := by
  cases called with
  | naturalLogarithm => exact stable.unary _
  | logarithm first base => exact stable.binary _ allStable.single
  | power base exponent => exact stable.binary _ allStable.single
  | minimum first second => exact stable.call allStable ⟨.inr ⟨.inl rfl, rfl⟩, nofun⟩
  | maximum first second => exact stable.call allStable ⟨.inr ⟨.inr rfl, rfl⟩, nofun⟩
  | unary first known => exact stable.unary _

theorem NamedCall.stable (called : NamedCall word first others tree) (ascii : Text.IsAscii word.toList)
    (identifier : IsIdentifier word) (stable : first.Stable) (allStable : AllStable others) :
    tree.Stable := by
  cases called with
  | marker integrand bound => exact stable.integral allStable.single.printable
  | call _ notMarker =>
      exact stable.call allStable
        ⟨.inl ⟨Text.toLower_toLower ascii, identifier.toLower ascii⟩, notMarker⟩

mutual

/-- The tree of a phrase of settled tokens is stable. -/
theorem Derives.stable {phrase : Phrase} {tokens rest : List Token} {tree : Expr Float} :
    Derives phrase tokens rest tree → Settled tokens → tree.Stable
  | .product first, settled => first.stable settled
  | .sum left _ _ right, settled =>
      (left.stable settled).binary _ (right.stable (settled.behind left.consumes.suffix))
  | .factor first, settled => first.stable settled
  | .multiple left _ _ right, settled =>
      (left.stable settled).binary _ (right.stable (settled.behind left.consumes.suffix))
  | .negation _ operand, settled => (operand.stable settled.tail).unary _
  | .affirmation _ operand, settled => operand.stable settled.tail
  | .unsigned first, settled => first.stable settled
  | .base first, settled => first.stable settled
  | .raised base _ exponent, settled =>
      (base.stable settled).binary _ (exponent.stable (settled.behind base.consumes.suffix))
  | .unmarked first, settled => first.stable settled
  | .factorial operand _, settled => (operand.stable settled).unary _
  | .number isNumber isValue, settled => stable_const (settled.spelled isNumber isValue)
  | .constant _ isValue, _ => stable_const (spelled_constantValue isValue)
  | .variableName isName _, settled =>
      stable_var ((settled.rescans _ List.mem_cons_self).identifier isName).2
  | .keyword _ _ arguments called, settled =>
      have stable := arguments.stable settled.tail.tail
      called.stable stable.1 stable.2
  | .named isName _ arguments called, settled =>
      have stable := arguments.stable settled.tail.tail
      have rescans := (settled.rescans _ List.mem_cons_self).identifier isName
      called.stable rescans.1 rescans.2 stable.1 stable.2
  | .parentheses _ _ inner, settled => inner.stable settled.tail

theorem DerivesArguments.stable {tokens rest : List Token} {first : Expr Float}
    {others : List (Expr Float)} :
    DerivesArguments tokens rest first others → Settled tokens → first.Stable ∧ AllStable others
  | .last first _, settled => ⟨first.stable settled, allStable_nil⟩
  | .more first _ further, settled =>
      have stable := further.stable (settled.behind first.consumes.suffix)
      ⟨first.stable settled, stable.2.cons stable.1⟩

end

end Grammar

namespace Printing

open Token Grammar ExprCalculus.Expr

variable {tree : Expr Float} {text : String}

/-- Reading the text of a printable tree gives the tree with its constants spelled out,
up to the tolerance. -/
theorem read_printable (printable : tree.Printable) :
    ∃ result, (Expr.ofText (tree.render Settings.standard)).outcome = .ok result ∧
      result.sameBy Settings.standard.same tree.normalized = true := by
  obtain ⟨result, renders, equal⟩ := renders_printable tree printable
  have sum : Renders .additive _ result := renders.additive
  exact ⟨result, outcome_ofText sum, equal⟩

/-- A tree that is read from a text is the tree of a sentence of its tokens. -/
theorem exists_sentence (read : (Expr.ofText text).outcome = .ok tree) :
    ∃ body stop, scan text = .ok (body ++ [stop]) ∧ Sentence body tree := by
  unfold Expr.ofText at read
  obtain ⟨_, -, read⟩ := Traced.outcome_bind_eq_ok.mp read
  obtain ⟨tokens, scanned, read⟩ := Traced.outcome_bind_eq_ok.mp read
  cases found : scan text with
  | error problem =>
      rw [found] at scanned
      cases scanned
  | ok others =>
      rw [found] at scanned
      cases scanned
      obtain ⟨body, stop, rfl, emitted⟩ := exists_emitted_of_scanFrom 0 text.toList found
      rcases Sentence.or_grammatical emitted with ⟨other, readOther, sentence⟩ | ⟨problem, failed⟩
      · rw [read] at readOther
        cases readOther
        exact ⟨body, stop, rfl, sentence⟩
      · rw [read] at failed
        cases failed

/-- A tree that is read from a plain text without overflow is stable. -/
theorem stable_of_read (ascii : Text.IsAscii text.toList) (noOverflow : NoOverflow text)
    (read : (Expr.ofText text).outcome = .ok tree) : tree.Stable := by
  obtain ⟨body, stop, scanned, sentence⟩ := exists_sentence read
  refine sentence.derives.stable ⟨fun token member => ?_, fun token member => ?_⟩
  · exact rescans_scanFrom ascii scanned token (List.mem_append_left _ member)
  · exact noOverflow _ scanned token (List.mem_append_left _ member)

end Printing

/-- The reader inverts the printer: every printable tree is read back with its constants
spelled out, and every tree read from an ASCII text whose numbers do not overflow is
printable and needs no constant spelled out, so that it is read back as it is. -/
theorem reader_inverts_printer :
    (∀ tree : Expr Float, tree.Printable →
      ∃ result, (Expr.ofText (tree.render Settings.standard)).outcome = .ok result ∧
        result.sameBy Settings.standard.same tree.normalized = true) ∧
    ∀ text tree, Text.IsAscii text.toList → Token.NoOverflow text →
      (Expr.ofText text).outcome = .ok tree →
        tree.Printable ∧ tree.normalized = tree ∧
          ∃ result, (Expr.ofText (tree.render Settings.standard)).outcome = .ok result ∧
            result.sameBy Settings.standard.same tree = true := by
  refine ⟨fun tree printable => Printing.read_printable printable, ?_⟩
  intro text tree ascii noOverflow read
  obtain ⟨printable, unchanged⟩ := Printing.stable_of_read ascii noOverflow read
  have readBack := Printing.read_printable printable
  rw [unchanged] at readBack
  exact ⟨printable, unchanged, readBack⟩

/-- A power with a negative exponent is read back with a sign, and a text with a sign, a
call and a factorial mark is read as a tree that is printed and read again. -/
theorem reader_inverts_signed_power :
    (∃ result,
      (Expr.ofText ((Expr.binary .power (.var "x") (.const (-2.0))).render
        Settings.standard)).outcome = .ok result ∧
      result.sameBy Settings.standard.same
        (.binary .power (.var "x") (.unary .negate (.const 2.0))) = true) ∧
    (Expr.ofText "-x!").outcome = .ok (.unary .negate (.unary .factorial (.var "x"))) ∧
    ∃ result,
      (Expr.ofText ((Expr.unary .negate (.unary .factorial (.var "x"))).render
        Settings.standard)).outcome = .ok result ∧
      result.sameBy Settings.standard.same
        (.unary .negate (.unary .factorial (.var "x"))) = true := by
  have identifier : Token.IsIdentifier "x" := ⟨⟨.finish, "", 1⟩, by decide +kernel⟩
  have read : (Expr.ofText "-x!").outcome = .ok (.unary .negate (.unary .factorial (.var "x"))) := by
    have variableName : Printing.Renders (Grammar.phraseOf .postfixed) "x" (.var "x") :=
      .of_primary .postfixed (Printing.renders_variable identifier)
    have factorial : Printing.Renders (Grammar.phraseOf .postfixed) "x!" _ :=
      Printing.Renders.factorial variableName
    have operand : Printing.Renders (Grammar.phraseOf .unary) "x!" _ :=
      factorial.looser (by decide)
    have negation : Printing.Renders (Grammar.phraseOf .unary) "-x!" _ :=
      Printing.Renders.negation operand
    exact Printing.outcome_ofText negation.additive
  refine ⟨?_, read, ?_⟩
  · obtain ⟨result, readBack, equal⟩ := reader_inverts_printer.1
      (.binary .power (.var "x") (.const (-2.0))) ⟨identifier, trivial⟩
    have spelledOut : Expr.spelled (-2.0) = .unary .negate (.const 2.0) := rfl
    rw [Expr.normalized, Expr.normalized, Expr.normalized, spelledOut] at equal
    exact ⟨result, readBack, equal⟩
  · have noOverflow : Token.NoOverflow "-x!" := by
      have scanned : Token.scan "-x!" = .ok [⟨.operator, "-", 0⟩, ⟨.identifier, "x", 1⟩,
          ⟨.factorial, "!", 2⟩, ⟨.finish, "", 3⟩] := by decide +kernel
      intro tokens found token member isNumber
      rw [scanned] at found
      cases found
      simp only [List.mem_cons, List.not_mem_nil, or_false] at member
      rcases member with rfl | rfl | rfl | rfl <;> cases isNumber
    have ascii : ∀ character ∈ "-x!".toList, character.toNat < 128 := by simp
    exact (reader_inverts_printer.2 "-x!" _ ascii noOverflow read).2.2

end ExprCalculus
