import ExprCalculus.Proofs.Grammar.Recognition
import ExprCalculus.Proofs.Printing.Scanning
import ExprCalculus.Proofs.Scanning.NumberRuns

/-!
# Words of tokens

A token is read from a word, a piece of the text, and shows it: as it is or, for a reserved
name, in lower case.  Another text after the word leaves the token as it is if it begins with a
blank or in the same way.  What the token shows is read as the same token again.
-/

namespace ExprCalculus

namespace Text

/-- The dot that the lower case of one capital letter has above it as a second character. -/
def dotAbove : Char :=
  Char.ofNat 0x307

/-- The lower case of characters without a dotted letter has as many characters. -/
theorem length_lowerAfter {before characters : List Char}
    (undotted : dotAbove ∉ lowerAfter before characters) :
    (lowerAfter before characters).length = characters.length := by
  induction characters generalizing before with
  | nil => rfl
  | cons character rest ih =>
      rw [lowerAfter, List.mem_append, not_or] at undotted
      rw [lowerAfter, List.length_append, ih undotted.2, List.length_cons, Nat.add_comm]
      congr 1
      have notDotted := undotted.1
      unfold lowerCharacter at notDotted ⊢
      dsimp only at notDotted ⊢
      split
      next => split <;> rfl
      next notSigma =>
        rw [if_neg notSigma] at notDotted
        split
        next => rfl
        next notSmall =>
          rw [if_neg notSmall] at notDotted
          split
          next capital =>
            rw [if_pos capital] at notDotted
            exact absurd (List.mem_cons_of_mem _ List.mem_cons_self) notDotted
          next => rfl

end Text

namespace Token

open Text

/-- The text of the token is a word, in lower case if the token is a reserved name. -/
def Shows (token : Token) (word : List Char) : Prop :=
  token.text =
    if token.kind = .constant ∨ token.kind = .function then toLower (String.ofList word)
    else String.ofList word

def moved (token : Token) (position : Int) : Token :=
  { token with position := position }

variable {position length : Nat} {character : Char} {rest after tail word : List Char}
  {token : Token}

theorem ofName_shows (word : List Char) (position : Nat) :
    (ofName (String.ofList word) position).Shows word := by
  unfold ofName
  dsimp only
  split
  · exact (if_pos (.inl rfl)).symm
  split
  · exact (if_pos (.inr rfl)).symm
  · exact (if_neg (by simp)).symm

theorem ofName_moved (name : String) (position other : Nat) :
    (ofName name position).moved other = ofName name other := by
  unfold ofName
  dsimp only
  split
  · rfl
  split <;> rfl

theorem single_shows {kind : Kind} {text : String} (found : single? character = some (kind, text))
    (position : Int) : (⟨kind, text, position⟩ : Token).Shows [character] := by
  unfold single? at found
  repeat' split at found
  all_goals cases found
  all_goals
    subst_vars
    rfl

/-- The name that a text begins with does not depend on the text after it. -/
theorem takeWhile_resumes (resumes : Resumes (rest.dropWhile continuesName) tail) :
    (rest.takeWhile continuesName ++ tail).takeWhile continuesName =
        rest.takeWhile continuesName ∧
      (rest.takeWhile continuesName ++ tail).dropWhile continuesName = tail := by
  have continues : ∀ other ∈ rest.takeWhile continuesName, continuesName other = true :=
    List.all_eq_true.mp List.all_takeWhile
  rw [List.takeWhile_append_of_pos continues, List.dropWhile_append_of_pos continues]
  cases tail with
  | nil => exact ⟨List.append_nil _, rfl⟩
  | cons next others =>
      have stops : ¬ continuesName next = true := by
        rcases resumes next rfl with rfl | same
        · decide
        · have ended := List.head?_dropWhile_not continuesName rest
          rw [same] at ended
          simpa using ended
      rw [List.takeWhile_cons_of_neg stops, List.dropWhile_cons_of_neg stops]
      exact ⟨List.append_nil _, rfl⟩

/-- A token is read from a word, and is read again with another text after the word. -/
theorem exists_word_of_first (found : first position character rest = .ok (token, length, after)) :
    ∃ word, rest = word ++ after ∧ length = word.length + 1 ∧ token.Shows (character :: word) ∧
      ∀ (other : Nat) tail, Resumes after tail →
        first other character (word ++ tail) = .ok (token.moved other, length, tail) := by
  simp only [first] at found
  split at found
  next starts =>
    split at found
    next readable =>
      cases found
      refine ⟨_, (append_numberRun _ _ rest).symm, rfl, rfl, fun other tail resumes => ?_⟩
      unfold first
      rw [if_pos starts]
      dsimp only
      rw [numberRun_stops rfl resumes, if_pos readable]
      rfl
    next => cases found
  next notNumber =>
    split at found
    next starts =>
      rw [Except.ok.injEq, Prod.mk.injEq, Prod.mk.injEq] at found
      obtain ⟨rfl, rfl, rfl⟩ := found
      refine ⟨_, List.takeWhile_append_dropWhile.symm, rfl, ofName_shows _ position,
        fun other tail resumes => ?_⟩
      obtain ⟨taken, left⟩ := takeWhile_resumes resumes
      unfold first
      rw [if_neg notNumber, if_pos starts]
      dsimp only
      rw [taken, left, ofName_moved]
    next notName =>
      split at found
      next kind text single =>
        cases found
        refine ⟨[], rfl, rfl, single_shows single position, fun other tail _ => ?_⟩
        unfold first
        rw [if_neg notNumber, if_neg notName, single]
        rfl
      next => cases found

/-- A text that does not go on with the word before it. -/
def EndsWord (tail : List Char) : Prop :=
  ∀ next ∈ tail.head?, next = ' '

theorem EndsWord.separates (ends : EndsWord tail) : Separates tail := by
  intro next isNext
  rw [ends next isNext]
  decide

/-- The reserved names of constants are in lower case. -/
theorem constantWord_lowered {name : String} (reserved : (constantValue? name).isSome = true) :
    isName name.toList = true ∧ toLower name = name ∧ dotAbove ∉ name.toList := by
  unfold constantValue? at reserved
  split at reserved
  all_goals first
    | decide +kernel
    | cases reserved

/-- The reserved names of constants are scanned as such. -/
theorem ofName_constantWord {name : String} (reserved : (constantValue? name).isSome = true)
    (position : Nat) : ofName name position = ⟨.constant, name, position⟩ := by
  unfold ofName
  dsimp only
  rw [(constantWord_lowered reserved).2.1, if_pos reserved]

/-- What a token shows is scanned as the same token. -/
theorem scans_shown (visible : isBlank character = false)
    (found : first position character rest = .ok (token, length, after)) (other : Nat) :
    Scans EndsWord other token.text.toList [token.moved other] := by
  have lexeme := isLexeme_first found
  obtain ⟨word, -, isLength, shows, again⟩ := exists_word_of_first found
  have named {name : String} (isWord : isName name.toList = true)
      (same : ofName name other = token.moved other) :
      Scans EndsWord other name.toList [token.moved other] := by
    intro tail later ends scanned
    have scans := scans_name isWord other
    rw [String.ofList_toList, same] at scans
    exact scans tail later ends.separates scanned
  by_cases constant : token.kind = .constant
  · simp only [IsLexeme, constant] at lexeme
    refine named (constantWord_lowered lexeme).1 ?_
    rw [ofName_constantWord lexeme, moved, constant]
  by_cases function : token.kind = .function
  · simp only [IsLexeme, function] at lexeme
    refine named (ofName_functionWord lexeme).1 ?_
    rw [(ofName_functionWord lexeme).2, moved, function]
  -- Any other token shows its word as it is.
  rw [Shows, if_neg (by simp [constant, function])] at shows
  rw [shows, String.toList_ofList]
  intro tail later ends scanned
  refine scanFrom_visible visible (again other tail fun next isNext => .inl (ends next isNext)) ?_
  rw [isLength]
  exact scanned

/-- A token shows as many characters as it was read from. -/
theorem Shows.length_eq (lexeme : token.IsLexeme) (shows : token.Shows word) :
    token.text.length = word.length := by
  rw [Shows] at shows
  split at shows
  next reserved =>
    have undotted : dotAbove ∉ token.text.toList := by
      rcases reserved with constant | function
      · simp only [IsLexeme, constant] at lexeme
        exact (constantWord_lowered lexeme).2.2
      · simp only [IsLexeme, function] at lexeme
        have checked : ∀ other ∈ functionWords, dotAbove ∉ other.toList := by decide
        exact checked _ lexeme
    rw [shows, toLower, String.toList_ofList, String.toList_ofList] at undotted
    rw [shows, toLower, String.toList_ofList, String.length_ofList]
    exact length_lowerAfter undotted
  next => rw [shows, String.length_ofList]

end Token

end ExprCalculus
