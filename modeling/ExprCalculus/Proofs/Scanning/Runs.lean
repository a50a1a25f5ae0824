import ExprCalculus.Token.Lexer

/-!
# Scanned characters

Characters that are scanned are read from left to right: blanks leave nothing, and any
other character begins a token, behind which scanning goes on.
-/

namespace ExprCalculus

namespace Token

open Text

variable {position length : Nat} {character : Char} {rest after : List Char} {token : Token}
  {tokens later : List Token}

theorem scanFrom_nil (position : Nat) : scanFrom position [] = .ok [⟨.finish, "", position⟩] := by
  rw [scanFrom]

/-- A blank leaves no token. -/
theorem scanFrom_blank (blank : isBlank character = true)
    (scanned : scanFrom (position + 1) rest = .ok tokens) :
    scanFrom position (character :: rest) = .ok tokens := by
  rw [scanFrom, if_pos blank]
  exact scanned

/-- A character that is no blank begins a token. -/
theorem scanFrom_visible (visible : isBlank character = false)
    (found : first position character rest = .ok (token, length, after))
    (scanned : scanFrom (position + length) after = .ok later) :
    scanFrom position (character :: rest) = .ok (token :: later) := by
  rw [scanFrom, if_neg (by rw [visible]; exact Bool.false_ne_true)]
  split
  next problem failed =>
    rw [found] at failed
    cases failed
  next other otherLength otherAfter otherFound =>
    rw [found] at otherFound
    cases otherFound
    rw [scanned]
    rfl

/-- The first character of a scanned text is a blank or begins the first token. -/
theorem scanFrom_cons (scanned : scanFrom position (character :: rest) = .ok tokens) :
    (isBlank character = true ∧ scanFrom (position + 1) rest = .ok tokens) ∨
      ∃ token length after later, isBlank character = false ∧
        first position character rest = .ok (token, length, after) ∧
        scanFrom (position + length) after = .ok later ∧ tokens = token :: later := by
  rw [scanFrom] at scanned
  split at scanned
  next blank => exact .inl ⟨blank, scanned⟩
  next visible =>
    split at scanned
    next => cases scanned
    next token length after found =>
      cases further : scanFrom (position + length) after with
      | error problem =>
          rw [further] at scanned
          cases scanned
      | ok later =>
          rw [further] at scanned
          cases scanned
          exact .inr ⟨token, length, after, later, Bool.eq_false_iff.mpr visible, found, further,
            rfl⟩

/-- Induction on characters that are scanned, from left to right. -/
@[elab_as_elim]
theorem scanFrom_induction
    {motive : ∀ position characters tokens, scanFrom position characters = .ok tokens → Prop}
    (finish : ∀ position, motive position [] [⟨.finish, "", position⟩] (scanFrom_nil position))
    (blank : ∀ {position character rest tokens} (blank : isBlank character = true)
      (scanned : scanFrom (position + 1) rest = .ok tokens),
      motive (position + 1) rest tokens scanned →
      motive position (character :: rest) tokens (scanFrom_blank blank scanned))
    (token : ∀ {position character rest token length after later}
      (visible : isBlank character = false)
      (found : first position character rest = .ok (token, length, after))
      (scanned : scanFrom (position + length) after = .ok later),
      motive (position + length) after later scanned →
      motive position (character :: rest) (token :: later)
        (scanFrom_visible visible found scanned))
    {position : Nat} {characters : List Char} {tokens : List Token}
    (scanned : scanFrom position characters = .ok tokens) :
    motive position characters tokens scanned := by
  match characters with
  | [] =>
      have same := (scanFrom_nil position).symm.trans scanned
      cases same
      exact finish position
  | character :: rest =>
      rcases scanFrom_cons scanned with ⟨isBlank, further⟩ |
        ⟨first, length, after, later, visible, found, further, rfl⟩
      · exact blank isBlank further (scanFrom_induction finish blank token further)
      · have shorter : after.length ≤ rest.length := length_of_first found
        exact token visible found further (scanFrom_induction finish blank token further)
termination_by characters.length

end Token

end ExprCalculus
