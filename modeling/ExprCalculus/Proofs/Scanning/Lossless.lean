import ExprCalculus.Proofs.Scanning.Layout

/-!
# Scanning loses nothing

The tokens of an accepted text lie in it one after the other and are scanned again from their
texts.  A text that is rejected is accepted up to the offset of the problem, and what comes
after that begins no token: with a character of no token, or with a longest run of a number
that is no number.
-/

namespace ExprCalculus

namespace Token

open Text

/-- A character that begins no token and is no blank. -/
structure StartsNoToken (character : Char) : Prop where
  notBlank : isBlank character = false
  notNumber : isDigit character = false ∧ character ≠ '.'
  notName : startsName character = false
  notSingle : character ∉ "+-*/^%(),!".toList

/-- Why a text cannot be scanned any further: it begins with a character that begins no token,
or the longest run of a number in front of it is no number. -/
inductive Offends (position : Nat) : List Char → LexError → Prop
  | character {character : Char} {rest : List Char} : StartsNoToken character →
      Offends position (character :: rest) (.unexpected character position)
  | number {run rest : List Char} : IsLongestRun run rest →
      (∃ start ∈ run.head?, isDigit start = true ∨ start = '.') →
      Decimal.read? (String.ofList run) = none →
      Offends position rest (.invalidNumber (String.ofList run) position)

/-- The text is accepted up to an offset, where it cannot be scanned any further. -/
def RejectedAt (text : String) (problem : LexError) : Prop :=
  ∃ accepted rest, text.toList = accepted ++ rest ∧ problem.position = accepted.length ∧
    (∃ tokens, scan (String.ofList accepted) = .ok tokens) ∧
    Offends accepted.length rest problem

section Rejections

variable {position : Nat} {character : Char} {rest : List Char} {problem : LexError}

theorem notSingle_of_single?_eq_none (notFound : single? character = none) :
    character ∉ "+-*/^%(),!".toList := by
  have checked : ("+-*/^%(),!".toList.all fun other => (single? other).isSome) = true := by decide
  intro listed
  have found := List.all_eq_true.mp checked character listed
  rw [notFound] at found
  cases found

/-- A text that begins no token is rejected where it begins. -/
theorem offends_of_first (visible : isBlank character = false)
    (failed : first position character rest = .error problem) :
    Offends position (character :: rest) problem := by
  simp only [first] at failed
  split at failed
  next starts =>
    rw [Bool.or_eq_true, decide_eq_true_eq] at starts
    split at failed
    next => cases failed
    next unreadable =>
      cases failed
      have isRun := isLongestRun_numberRun (character :: rest)
      rw [numberRun_starts starts] at isRun
      refine .number isRun ⟨character, rfl, starts⟩ ?_
      rw [Decimal.read?, String.toList_ofList]
      exact Option.not_isSome_iff_eq_none.mp unreadable
  next notNumber =>
    split at failed
    next => cases failed
    next notName =>
      split at failed
      next => cases failed
      next notSingle =>
        cases failed
        rw [Bool.or_eq_true, decide_eq_true_eq, not_or, Bool.not_eq_true] at notNumber
        exact .character ⟨visible, notNumber, Bool.eq_false_iff.mpr notName,
          notSingle_of_single?_eq_none notSingle⟩

/-- A front of a text resumes as the text does. -/
theorem resumes_append (accepted rest : List Char) : Resumes (accepted ++ rest) accepted := by
  intro next isNext
  rw [List.head?_append, isNext]
  exact .inr rfl

/-- Characters that are rejected are accepted up to where nothing begins a token. -/
theorem rejected_scanFrom {characters : List Char}
    (failed : scanFrom position characters = .error problem) :
    ∃ accepted rest, characters = accepted ++ rest ∧
      problem.position = (position + accepted.length : Nat) ∧
      (∃ tokens, scanFrom position accepted = .ok tokens) ∧
      Offends (position + accepted.length) rest problem := by
  fun_induction scanFrom position characters with
  | case1 position => cases failed
  | case2 position character rest blank ih =>
      obtain ⟨accepted, others, rfl, isPosition, ⟨tokens, scanned⟩, offends⟩ := ih failed
      have shifted : position + 1 + accepted.length =
          position + (character :: accepted).length := by
        rw [List.length_cons]
        omega
      rw [shifted] at isPosition offends
      exact ⟨character :: accepted, others, rfl, isPosition, ⟨tokens, scanFrom_blank blank scanned⟩,
        offends⟩
  | case3 position character rest visible reported found =>
      cases failed
      have offends := offends_of_first (Bool.eq_false_iff.mpr visible) found
      refine ⟨[], _, rfl, ?_, ⟨_, scanFrom_nil position⟩, offends⟩
      cases offends <;> rfl
  | case4 position character rest visible token length after found shorter ih =>
      cases further : scanFrom (position + length) after with
      | ok later =>
          rw [further] at failed
          cases failed
      | error reported =>
          rw [further] at failed
          cases failed
          obtain ⟨accepted, others, rfl, isPosition, ⟨tokens, scanned⟩, offends⟩ := ih further
          obtain ⟨word, rfl, rfl, -, again⟩ := exists_word_of_first found
          -- Cut off at the problem, the text after the first token still resumes as before.
          have shifted : position + (word.length + 1) + accepted.length =
              position + (character :: (word ++ accepted)).length := by
            rw [List.length_cons, List.length_append]
            omega
          rw [shifted] at isPosition offends
          refine ⟨character :: (word ++ accepted), others, ?_, isPosition,
            ⟨token.moved position :: tokens, ?_⟩, offends⟩
          · rw [List.cons_append, List.append_assoc]
          · exact scanFrom_visible (Bool.eq_false_iff.mpr visible)
              (again position accepted (resumes_append accepted others)) scanned

end Rejections

end Token

open Token

/-- Scanning loses nothing of a text but blanks and the case of reserved names, and a rejected
text is rejected where it begins no token. -/
theorem scan_is_lossless (text : String) :
    match Token.scan text with
    | .ok tokens => IsLayout text tokens ∧ Rejoins tokens
    | .error problem => RejectedAt text problem := by
  cases result : Token.scan text with
  | ok tokens => exact ⟨isLayout_of_scan result, rejoins_of_scan result⟩
  | error problem =>
      obtain ⟨accepted, rest, isText, isPosition, accepts, offends⟩ := rejected_scanFrom result
      rw [Nat.zero_add] at isPosition offends
      refine ⟨accepted, rest, isText, isPosition, ?_, offends⟩
      rw [scan, String.toList_ofList]
      exact accepts

end ExprCalculus
