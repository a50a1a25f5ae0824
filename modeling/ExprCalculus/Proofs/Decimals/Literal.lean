import ExprCalculus.Decimal.Literal
import ExprCalculus.Token.Lexer

/-!
# Reading literals

A literal of digits, an optional fraction and an optional exponent with a sign denotes
a decimal.  The scanner takes the whole of such a literal for one number, and the
literal is read as the double of its decimal.
-/

namespace ExprCalculus

namespace Text

/-- A property of all ASCII characters is checked character by character. -/
theorem of_ascii {holds : Char → Prop} (checked : ∀ code : Nat, code < 128 → holds (Char.ofNat code))
    (character : Char) (ascii : character.toNat < 128) : holds character := by
  rw [← Char.ofNat_toNat character]
  exact checked _ ascii

theorem isDigit_ascii {character : Char} (digit : isDigit character = true) :
    character.toNat < 128 := by
  rw [isDigit, Bool.and_eq_true, decide_eq_true_eq, decide_eq_true_eq] at digit
  have upper : character.toNat ≤ 57 := digit.2
  omega

def isNumeric (character : Char) : Bool :=
  isDigit character || ".eE+-".toList.contains character

theorem isNumeric_of_isDigit {character : Char} (digit : isDigit character = true) :
    isNumeric character = true := by
  rw [isNumeric, digit, Bool.true_or]

theorem isNumeric_ascii {character : Char} (numeric : isNumeric character = true) :
    character.toNat < 128 := by
  rw [isNumeric, Bool.or_eq_true] at numeric
  rcases numeric with digit | sign
  · exact isDigit_ascii digit
  · have all : ∀ other ∈ ".eE+-".toList, other.toNat < 128 := by simp
    exact all character (List.contains_iff_mem.mp sign)

theorem isNumeric_plain {character : Char} (numeric : isNumeric character = true) :
    Decimal.isMargin character = false ∧ (asciiDigit? character).getD character = character ∧
      character ≠ '_' := by
  have all : ∀ other : Char, other.toNat < 128 → isNumeric other = true →
      Decimal.isMargin other = false ∧ (asciiDigit? other).getD other = other ∧ other ≠ '_' :=
    of_ascii (by decide)
  exact all character (isNumeric_ascii numeric) numeric

theorem isDigit_starts {character : Char} (digit : isDigit character = true) :
    character ≠ '-' ∧ character ≠ '+' ∧ character.toLower ≠ 'i' ∧ character.toLower ≠ 'n' := by
  have all : ∀ other : Char, other.toNat < 128 → isDigit other = true →
      other ≠ '-' ∧ other ≠ '+' ∧ other.toLower ≠ 'i' ∧ other.toLower ≠ 'n' :=
    of_ascii (by decide)
  exact all character (isDigit_ascii digit) digit

end Text

namespace Decimal

open Text

variable {literal rest : List Char} {character : Char}

section Plain

theorem trimmed_eq {drop : Char → Bool} {characters : List Char}
    (kept : ∀ character ∈ characters, drop character = false) :
    trimmed drop characters = characters := by
  have keptFront (others : List Char) (all : ∀ character ∈ others, drop character = false) :
      others.dropWhile drop = others := by
    cases others with
    | nil => rfl
    | cons first rest =>
        rw [List.dropWhile_cons_of_neg]
        rw [all first List.mem_cons_self]
        exact Bool.false_ne_true
  unfold trimmed
  rw [keptFront _ kept, keptFront, List.reverse_reverse]
  intro character member
  exact kept character (List.mem_reverse.mp member)

theorem withoutSeparators?_eq {characters : List Char} (noSeparator : '_' ∉ characters)
    (afterDigit : Bool) : withoutSeparators? afterDigit characters = some characters := by
  induction characters generalizing afterDigit with
  | nil => rfl
  | cons first rest ih =>
      rw [List.mem_cons, not_or] at noSeparator
      unfold withoutSeparators?
      split
      next => contradiction
      next digit rest same =>
        cases same
        exact absurd rfl noSeparator.1
      next other others _ same =>
        cases same
        rw [if_neg (Ne.symm noSeparator.1), ih noSeparator.2]
        rfl

/-- A literal that begins with a digit or a point is read as an unsigned one. -/
theorem readCharacters?_numeric
    (starts : isDigit character = true ∨ character = '.')
    (numeric : ∀ other ∈ rest, isNumeric other = true) :
    readCharacters? (character :: rest) =
      (unsigned? (character :: rest)).map (·.toFloat false) := by
  have numericAll : ∀ other ∈ character :: rest, isNumeric other = true := by
    refine List.forall_mem_cons.mpr ⟨?_, numeric⟩
    rcases starts with digit | rfl
    · exact isNumeric_of_isDigit digit
    · rfl
  have plain : (trimmed isMargin (character :: rest)).map
      (fun other => (asciiDigit? other).getD other) = character :: rest := by
    rw [trimmed_eq fun other member => (isNumeric_plain (numericAll other member)).1]
    refine (List.map_congr_left fun other member => ?_).trans (List.map_id _)
    exact (isNumeric_plain (numericAll other member)).2.1
  have separated := withoutSeparators?_eq
    (fun member => (isNumeric_plain (numericAll '_' member)).2.2 rfl) false
  have first : character ≠ '-' ∧ character ≠ '+' ∧ character.toLower ≠ 'i' ∧
      character.toLower ≠ 'n' := by
    rcases starts with digit | rfl
    · exact isDigit_starts digit
    · decide
  obtain ⟨notMinus, notPlus, notInfinity, notUndefined⟩ := first
  have unsplit : splitSign (character :: rest) = (false, character :: rest) := by
    unfold splitSign
    split
    next same =>
      cases same
      exact absurd rfl notMinus
    next same =>
      cases same
      exact absurd rfl notPlus
    next => rfl
  unfold readCharacters?
  dsimp only
  rw [plain, separated]
  dsimp only [Option.bind_eq_bind, Option.bind_some]
  rw [unsplit]
  dsimp only
  rw [if_neg, if_neg]
  · intro word
    exact notUndefined (List.cons_eq_cons.mp word).1
  · rw [Bool.or_eq_true, decide_eq_true_eq, decide_eq_true_eq]
    rintro (word | word)
    · exact notInfinity (List.cons_eq_cons.mp word).1
    · exact notInfinity (List.cons_eq_cons.mp word).1

end Plain

section Shapes

/-- The text of a fraction and its digits. -/
inductive IsFraction : List Char → List Char → Prop where
  | none : IsFraction [] []
  | digits {fraction : List Char} (all : ∀ digit ∈ fraction, isDigit digit = true) :
      IsFraction ('.' :: fraction) fraction

/-- The text of an exponent and its value. -/
inductive IsExponent : List Char → Int → Prop where
  | none : IsExponent [] 0
  | positive {digits : List Char} (nonempty : digits ≠ [])
      (all : ∀ digit ∈ digits, isDigit digit = true) :
      IsExponent ('e' :: '+' :: digits) (digitsValue digits)
  | negative {digits : List Char} (nonempty : digits ≠ [])
      (all : ∀ digit ∈ digits, isDigit digit = true) :
      IsExponent ('e' :: '-' :: digits) (-(digitsValue digits : Int))

/-- The literal of a decimal: digits, and possibly a fraction and an exponent. -/
inductive IsLiteral : List Char → Decimal → Prop where
  | parts {whole fractionText fraction exponentText : List Char} {exponent : Int}
      (nonempty : whole ≠ []) (all : ∀ digit ∈ whole, isDigit digit = true)
      (isFraction : IsFraction fractionText fraction)
      (isExponent : IsExponent exponentText exponent) :
      IsLiteral (whole ++ (fractionText ++ exponentText))
        ⟨digitsValue (whole ++ fraction), exponent - fraction.length⟩

variable {fraction exponentText : List Char} {exponent : Int}

theorem IsLiteral.ne_nil {decimal : Decimal} (isLiteral : IsLiteral literal decimal) :
    literal ≠ [] := by
  cases isLiteral with
  | parts nonempty => exact List.append_ne_nil_of_left_ne_nil nonempty _

/-- A list that does not begin with a digit. -/
def EndsDigits (characters : List Char) : Prop :=
  ∀ character ∈ characters.head?, isDigit character = false

theorem takeWhile_digits {digits : List Char} (all : ∀ digit ∈ digits, isDigit digit = true)
    (ends : EndsDigits rest) :
    (digits ++ rest).takeWhile isDigit = digits ∧ (digits ++ rest).dropWhile isDigit = rest := by
  rw [List.takeWhile_append_of_pos all, List.dropWhile_append_of_pos all]
  cases rest with
  | nil => exact ⟨List.append_nil digits, rfl⟩
  | cons first others =>
      have notDigit : ¬ isDigit first = true := by
        rw [ends first rfl]
        exact Bool.false_ne_true
      rw [List.takeWhile_cons_of_neg notDigit, List.dropWhile_cons_of_neg notDigit]
      exact ⟨List.append_nil digits, rfl⟩

theorem IsExponent.endsDigits (isExponent : IsExponent exponentText exponent) :
    EndsDigits exponentText := by
  cases isExponent with
  | none => exact fun _ member => by cases member
  | positive nonempty all => rintro _ ⟨⟩; rfl
  | negative nonempty all => rintro _ ⟨⟩; rfl

theorem IsExponent.exponentPart? (isExponent : IsExponent exponentText exponent) :
    exponentPart? exponentText = some exponent := by
  cases isExponent with
  | none => rfl
  | @positive digits nonempty all =>
      have allDigits : digits.all isDigit = true := List.all_eq_true.mpr all
      have notEmpty : digits.isEmpty = false := List.isEmpty_eq_false_iff.mpr nonempty
      simp [Decimal.exponentPart?, splitSign, allDigits, notEmpty]
  | @negative digits nonempty all =>
      have allDigits : digits.all isDigit = true := List.all_eq_true.mpr all
      have notEmpty : digits.isEmpty = false := List.isEmpty_eq_false_iff.mpr nonempty
      simp [Decimal.exponentPart?, splitSign, allDigits, notEmpty]

/-- A literal denotes its decimal. -/
theorem IsLiteral.unsigned? {decimal : Decimal} (isLiteral : IsLiteral literal decimal) :
    Decimal.unsigned? literal = some decimal := by
  cases isLiteral with
  | @parts whole fractionText fraction exponentText exponent nonempty all isFraction isExponent =>
      have ends := isExponent.endsDigits
      have part := isExponent.exponentPart?
      cases isFraction with
      | none =>
          obtain ⟨taken, dropped⟩ := takeWhile_digits all ends
          unfold Decimal.unsigned?
          rw [List.nil_append, taken, dropped]
          cases isExponent with
          | none => simp [Decimal.exponentPart?, nonempty]
          | positive some digits => simp [part, nonempty]
          | negative some digits => simp [part, nonempty]
      | digits fractionDigits =>
          have pointEnds : EndsDigits ('.' :: fraction ++ exponentText) := by
            rintro _ ⟨⟩
            rfl
          obtain ⟨taken, dropped⟩ := takeWhile_digits all pointEnds
          obtain ⟨fractionTaken, fractionDropped⟩ := takeWhile_digits fractionDigits ends
          unfold Decimal.unsigned?
          rw [taken, dropped]
          simp [fractionTaken, fractionDropped, part, nonempty]

theorem IsFraction.numeric {fractionText : List Char}
    (isFraction : IsFraction fractionText fraction) :
    ∀ other ∈ fractionText, isNumeric other = true := by
  cases isFraction with
  | none => exact List.forall_mem_nil _
  | digits all =>
      exact List.forall_mem_cons.mpr ⟨rfl, fun digit member => isNumeric_of_isDigit (all digit member)⟩

theorem IsExponent.numeric (isExponent : IsExponent exponentText exponent) :
    ∀ other ∈ exponentText, isNumeric other = true := by
  cases isExponent with
  | none => exact List.forall_mem_nil _
  | positive nonempty all =>
      exact List.forall_mem_cons.mpr ⟨rfl, List.forall_mem_cons.mpr ⟨rfl, fun digit member =>
        isNumeric_of_isDigit (all digit member)⟩⟩
  | negative nonempty all =>
      exact List.forall_mem_cons.mpr ⟨rfl, List.forall_mem_cons.mpr ⟨rfl, fun digit member =>
        isNumeric_of_isDigit (all digit member)⟩⟩

/-- A literal is read as the double of its decimal. -/
theorem IsLiteral.readCharacters? {decimal : Decimal} (isLiteral : IsLiteral literal decimal) :
    Decimal.readCharacters? literal = some (decimal.toFloat false) := by
  have unsigned := isLiteral.unsigned?
  cases isLiteral with
  | @parts whole fractionText fraction exponentText exponent nonempty all isFraction isExponent =>
      obtain ⟨first, rest, rfl⟩ := List.exists_cons_of_ne_nil nonempty
      rw [List.forall_mem_cons] at all
      have numeric : ∀ other ∈ rest ++ (fractionText ++ exponentText), isNumeric other = true := by
        rw [List.forall_mem_append, List.forall_mem_append]
        exact ⟨fun digit member => isNumeric_of_isDigit (all.2 digit member), isFraction.numeric,
          isExponent.numeric⟩
      rw [List.cons_append] at unsigned ⊢
      rw [readCharacters?_numeric (.inl all.1) numeric, unsigned]
      rfl

end Shapes

end Decimal

namespace Token

open Text Decimal

variable {tail : List Char}

/-- A list whose first character belongs to no name and no number. -/
def Separates (tail : List Char) : Prop :=
  ∀ character ∈ tail.head?, continuesName character = false ∧ character ≠ '.'

theorem numberRun_digits {digits : List Char} (all : ∀ digit ∈ digits, isDigit digit = true)
    (pointSeen exponentSeen : Bool) (rest : List Char) :
    numberRun pointSeen exponentSeen (digits ++ rest) =
      (digits ++ (numberRun pointSeen exponentSeen rest).1,
        (numberRun pointSeen exponentSeen rest).2) := by
  induction digits with
  | nil => rfl
  | cons first others ih =>
      rw [List.forall_mem_cons] at all
      rw [List.cons_append, numberRun.eq_def]
      dsimp only
      rw [if_pos all.1, ih all.2]
      rfl

theorem numberRun_separates (separates : Separates tail) (pointSeen exponentSeen : Bool) :
    numberRun pointSeen exponentSeen tail = ([], tail) := by
  cases tail with
  | nil => rfl
  | cons character rest =>
      obtain ⟨notName, notPoint⟩ := separates character rfl
      rw [continuesName, Bool.or_eq_false_iff, startsName, Bool.or_eq_false_iff] at notName
      have notLetter (letter : Char) (isLetter : Text.isLetter letter = true) :
          character ≠ letter := by
        rintro rfl
        rw [notName.1.2] at isLetter
        cases isLetter
      rw [numberRun.eq_def]
      dsimp only
      rw [if_neg (by rw [notName.2]; exact Bool.false_ne_true), if_neg (by simp [notPoint]),
        if_neg (by simp [notLetter 'e' (by decide), notLetter 'E' (by decide)])]

theorem numberRun_exponent {exponentText : List Char} {exponent : Int}
    (isExponent : IsExponent exponentText exponent) (separates : Separates tail) (pointSeen : Bool) :
    numberRun pointSeen false (exponentText ++ tail) = (exponentText, tail) := by
  cases isExponent with
  | none => exact numberRun_separates separates pointSeen false
  | positive nonempty all =>
      rw [List.cons_append, List.cons_append, numberRun.eq_def]
      simp [isDigit, numberRun_digits all, numberRun_separates separates]
  | negative nonempty all =>
      rw [List.cons_append, List.cons_append, numberRun.eq_def]
      simp [isDigit, numberRun_digits all, numberRun_separates separates]

/-- The run of a number takes the whole of a literal. -/
theorem numberRun_literal {first : Char} {run : List Char} {decimal : Decimal}
    (isLiteral : IsLiteral (first :: run) decimal) (separates : Separates tail) :
    isDigit first = true ∧ numberRun false false (run ++ tail) = (run, tail) := by
  generalize isText : first :: run = text at isLiteral
  cases isLiteral with
  | @parts whole fractionText fraction exponentText exponent nonempty all isFraction isExponent =>
      obtain ⟨digit, rest, rfl⟩ := List.exists_cons_of_ne_nil nonempty
      rw [List.forall_mem_cons] at all
      obtain ⟨starts, all⟩ := all
      rw [List.cons_append] at isText
      cases isText
      refine ⟨starts, ?_⟩
      rw [List.append_assoc, List.append_assoc, numberRun_digits all]
      cases isFraction with
      | none =>
          rw [List.nil_append, numberRun_exponent isExponent separates]
          rfl
      | digits fractionDigits =>
          rw [List.cons_append, numberRun.eq_def]
          simp [isDigit, numberRun_digits fractionDigits, numberRun_exponent isExponent separates]

end Token

end ExprCalculus
