import ExprCalculus.Proofs.Scanning.Words

/-!
# The layout of tokens

The tokens of a text lie in it one after the other with nothing but blanks around them, and
the end token lies at its end.  Nothing else of the text matters: the texts of the tokens with
single blanks between them are scanned as the same tokens.
-/

namespace ExprCalculus

namespace Token

open Text

def slice (text : String) (start stop : Int) : List Char :=
  (text.toList.drop start.toNat).take (stop.toNat - start.toNat)

def past (token : Token) : Int :=
  token.position + (token.text.length : Int)

/-- The tokens of a text lie in it one after the other. -/
structure IsLayout (text : String) (tokens : List Token) : Prop where
  increasing : tokens.Pairwise (·.position < ·.position)
  ended : ∃ body, tokens = body ++ [⟨.finish, "", text.length⟩] ∧
    ∀ token ∈ body, token.kind ≠ .finish
  led : ∀ first ∈ tokens.head?, 0 ≤ first.position ∧
    ∀ character ∈ slice text 0 first.position, isBlank character = true
  shown : ∀ before token next after, tokens = before ++ token :: next :: after →
    token.Shows (slice text token.position token.past) ∧
      token.past ≤ next.position ∧
      ∀ character ∈ slice text token.past next.position,
        isBlank character = true

/-- What a token is without its offset. -/
def signature (token : Token) : Kind × String :=
  (token.kind, token.text)

/-- The texts of the tokens, with single blanks between them and with or without that of the
end token, are scanned as the same tokens. -/
def Rejoins (tokens : List Token) : Prop :=
  ∀ listed, listed = tokens ∨ listed = tokens.dropLast →
    ∃ again, scan (" ".intercalate (listed.map (·.text))) = .ok again ∧
      again.map signature = tokens.map signature

/-- Tokens laid out over characters from an offset on: blanks, and the words that the tokens
are read from, up to the end token. -/
inductive Laid : Nat → List Char → List Token → Prop
  | finish (position : Nat) : Laid position [] [⟨.finish, "", position⟩]
  | blank {position : Nat} {character : Char} {rest : List Char} {tokens : List Token} :
      isBlank character = true → Laid (position + 1) rest tokens →
      Laid position (character :: rest) tokens
  | token {position : Nat} {character : Char} {word after : List Char} {token : Token}
      {tokens : List Token} :
      isBlank character = false →
      first position character (word ++ after) = .ok (token, word.length + 1, after) →
      Laid (position + (word.length + 1)) after tokens →
      Laid position (character :: (word ++ after)) (token :: tokens)

/-- The tokens of scanned characters are laid out over them. -/
theorem laid_of_scanFrom {position : Nat} {characters : List Char} {tokens : List Token}
    (scanned : scanFrom position characters = .ok tokens) : Laid position characters tokens := by
  induction scanned using scanFrom_induction with
  | finish position => exact .finish position
  | blank blank _ ih => exact .blank blank ih
  | token visible found _ ih =>
      obtain ⟨word, rfl, rfl, -⟩ := exists_word_of_first found
      exact .token visible found ih

namespace Laid

variable {position : Nat} {characters : List Char} {tokens : List Token}

/-- What is laid out over characters is what they are scanned as. -/
theorem scanned (laid : Laid position characters tokens) :
    scanFrom position characters = .ok tokens := by
  induction laid with
  | finish position => exact scanFrom_nil position
  | blank blank _ ih => exact scanFrom_blank blank ih
  | token visible found _ ih => exact scanFrom_visible visible found ih

theorem increasing (laid : Laid position characters tokens) :
    tokens.Pairwise (·.position < ·.position) := by
  induction laid with
  | finish position => exact List.pairwise_singleton _ _
  | blank _ _ ih => exact ih
  | token _ found later ih =>
      refine List.pairwise_cons.mpr ⟨fun other member => ?_, ih⟩
      have start := position_of_first found
      have least := le_position_of_scanFrom later.scanned other member
      omega

/-- The end token lies at the end, and every other token is read from a word. -/
theorem ended (laid : Laid position characters tokens) :
    ∃ body, tokens = body ++ [⟨.finish, "", (position + characters.length : Nat)⟩] ∧
      ∀ token ∈ body, token.kind ≠ .finish ∧
        ∀ other, Scans EndsWord other token.text.toList [token.moved other] := by
  induction laid with
  | finish position => exact ⟨[], rfl, List.forall_mem_nil _⟩
  | blank _ _ ih =>
      obtain ⟨body, rfl, each⟩ := ih
      refine ⟨body, ?_, each⟩
      rw [List.length_cons, Nat.add_assoc, Nat.add_comm 1]
  | @token position character word after token _ visible found _ ih =>
      obtain ⟨body, rfl, each⟩ := ih
      refine ⟨token :: body, ?_, List.forall_mem_cons.mpr ⟨⟨?_, scans_shown visible found⟩, each⟩⟩
      · rw [List.length_cons, List.length_append, List.cons_append]
        congr 4
        omega
      · intro isEnd
        have lexeme := isLexeme_first found
        simp only [IsLexeme, isEnd] at lexeme

/-- Only blanks come before the first token. -/
theorem led {first : Token} {later : List Token}
    (laid : Laid position characters (first :: later)) :
    ∃ blanks rest, characters = blanks ++ rest ∧
      first.position = (position + blanks.length : Nat) ∧
      ∀ character ∈ blanks, isBlank character = true := by
  generalize isTokens : first :: later = tokens at laid
  induction laid with
  | finish position =>
      cases isTokens
      exact ⟨[], [], rfl, rfl, List.forall_mem_nil _⟩
  | @blank position character rest _ isBlank _ ih =>
      obtain ⟨blanks, others, rfl, isPosition, all⟩ := ih isTokens
      refine ⟨character :: blanks, others, rfl, ?_, List.forall_mem_cons.mpr ⟨isBlank, all⟩⟩
      rw [isPosition, List.length_cons]
      omega
  | token _ found _ _ =>
      cases isTokens
      exact ⟨[], _, rfl, position_of_first found, List.forall_mem_nil _⟩

/-- A token and the next one lie around the rest of a word and blanks. -/
theorem between {before after : List Token} {token next : Token}
    (laid : Laid position characters (before ++ token :: next :: after)) :
    ∃ front word blanks back, characters = front ++ (word ++ (blanks ++ back)) ∧
      token.position = (position + front.length : Nat) ∧ token.Shows word ∧
      token.text.length = word.length ∧
      next.position = (position + front.length + word.length + blanks.length : Nat) ∧
      ∀ character ∈ blanks, isBlank character = true := by
  -- The token comes from the first word or from a later one, with fewer tokens before it.
  generalize isTokens : before ++ token :: next :: after = tokens at laid
  induction laid generalizing before with
  | finish position =>
      have lengths := congrArg List.length isTokens
      simp only [List.length_append, List.length_cons, List.length_nil] at lengths
      omega
  | @blank position character rest _ _ _ ih =>
      obtain ⟨front, word, blanks, back, rfl, isPosition, shows, isLength, isNext, all⟩ :=
        ih isTokens
      refine ⟨character :: front, word, blanks, back, rfl, ?_, shows, isLength, ?_, all⟩
      · rw [isPosition, List.length_cons]
        omega
      · rw [isNext, List.length_cons]
        omega
  | @token position character word rest other tokens _ found later ih =>
      cases before with
      | nil =>
          cases isTokens
          obtain ⟨blanks, back, rfl, isNext, all⟩ := later.led
          obtain ⟨same, isWord, -, shows, -⟩ := exists_word_of_first found
          rw [List.append_cancel_right isWord.symm] at shows
          refine ⟨[], character :: word, blanks, back, rfl, position_of_first found, shows,
            shows.length_eq (isLexeme_first found), ?_, all⟩
          rw [isNext, List.length_cons]
          rfl
      | cons earlier before =>
          obtain ⟨-, rfl⟩ := List.cons.inj isTokens
          obtain ⟨front, nextWord, blanks, back, rfl, isPosition, shows, isLength, isNext, all⟩ :=
            ih rfl
          refine ⟨character :: (word ++ front), nextWord, blanks, back, ?_, ?_, shows, isLength,
            ?_, all⟩
          · rw [List.cons_append, List.append_assoc]
          · rw [isPosition, List.length_cons, List.length_append]
            omega
          · rw [isNext, List.length_cons, List.length_append]
            omega

end Laid

section Slices

variable {text : String} {front piece back : List Char}

/-- The slice of a piece of the text. -/
theorem slice_eq {start stop : Int} (isText : text.toList = front ++ (piece ++ back))
    (isStart : start = (front.length : Nat)) (isStop : stop = (front.length + piece.length : Nat)) :
    slice text start stop = piece := by
  have span : stop.toNat - start.toNat = piece.length := by omega
  rw [slice, span, isText, isStart, Int.toNat_natCast, List.drop_left, List.take_left]

/-- The tokens of a scanned text lie in it one after the other. -/
theorem isLayout_of_scan {tokens : List Token} (scanned : scan text = .ok tokens) :
    IsLayout text tokens := by
  have laid := laid_of_scanFrom scanned
  refine ⟨laid.increasing, ?_, fun first isFirst => ?_, fun before token next after shape => ?_⟩
  · obtain ⟨body, isTokens, each⟩ := laid.ended
    rw [String.length_toList, Nat.zero_add] at isTokens
    exact ⟨body, isTokens, fun token member => (each token member).1⟩
  · cases tokens with
    | nil => cases isFirst
    | cons token later =>
        cases isFirst
        obtain ⟨blanks, rest, isText, isPosition, all⟩ := laid.led
        rw [Nat.zero_add] at isPosition
        have isSlice : slice text 0 first.position = blanks :=
          @slice_eq text [] blanks rest 0 first.position isText rfl (by simp [isPosition])
        rw [isSlice]
        exact ⟨by omega, all⟩
  · subst shape
    obtain ⟨front, word, blanks, back, isText, isPosition, shows, isLength, isNext, all⟩ :=
      laid.between
    rw [Nat.zero_add] at isPosition isNext
    have isPast : token.past = (front.length + word.length : Nat) := by
      rw [past, isPosition, isLength]
      rfl
    refine ⟨?_, by omega, ?_⟩
    · rw [slice_eq isText isPosition isPast]
      exact shows
    · rw [← List.append_assoc] at isText
      have isFront : ((front ++ word).length : Nat) = front.length + word.length :=
        List.length_append
      rw [slice_eq isText (isPast.trans (by rw [isFront])) (isNext.trans (by rw [isFront]))]
      exact all

end Slices

section Rejoining

/-- The end token contributes nothing to a joined text, and any other token is scanned again. -/
def Contributes (token : Token) : Prop :=
  (token.kind = .finish ∧ token.text = "") ∨ (token.kind ≠ .finish ∧
    ∀ other, Scans EndsWord other token.text.toList [token.moved other])

def proper (tokens : List Token) : List Token :=
  tokens.filter (·.kind ≠ .finish)

theorem Contributes.scans {token : Token} (contributes : token.Contributes) (position : Nat) :
    ∃ again, Scans EndsWord position token.text.toList again ∧
      again.map signature = (proper [token]).map signature := by
  rcases contributes with ⟨isEnd, noText⟩ | ⟨notEnd, scans⟩
  · refine ⟨[], fun tail later _ scanned => ?_, by simp [proper, isEnd]⟩
    rw [noText] at scanned ⊢
    exact scanned
  · exact ⟨[token.moved position], scans position, by simp [proper, notEnd, signature, moved]⟩

/-- Texts with single blanks between them are scanned one after the other. -/
theorem scans_joined {tokens : List Token} (each : ∀ token ∈ tokens, token.Contributes)
    (position : Nat) :
    ∃ again, Scans EndsWord position (" ".intercalate (tokens.map (·.text))).toList again ∧
      again.map signature = (proper tokens).map signature := by
  induction tokens generalizing position with
  | nil => exact ⟨[], fun tail later _ scanned => scanned, rfl⟩
  | cons token rest ih =>
      obtain ⟨first, others⟩ := List.forall_mem_cons.mp each
      obtain ⟨again, scans, same⟩ := first.scans position
      cases rest with
      | nil =>
          refine ⟨again, ?_, same⟩
          rw [List.map_singleton, String.intercalate_singleton]
          exact scans
      | cons next rest =>
          obtain ⟨further, scansRest, sameRest⟩ :=
            ih others (position + token.text.toList.length + 1)
          have blankAfter (tail : List Char) : EndsWord ([' '] ++ tail) := by
            rintro _ ⟨⟩
            rfl
          have scansBoth := scans.append
            (Scans.append (scans_blank (fun _ => True) _) scansRest fun _ _ => trivial)
            fun tail _ => blankAfter _
          refine ⟨again ++ ([] ++ further), ?_, ?_⟩
          · rw [List.map_cons, List.map_cons, String.intercalate_cons_cons, String.append_assoc,
              String.toList_append, String.toList_append]
            exact scansBoth
          · rw [List.nil_append, List.map_append, same, sameRest, ← List.map_append, proper, proper,
              ← List.filter_append]
            rfl

/-- The tokens of a scanned text are scanned again from their texts. -/
theorem rejoins_of_scan {text : String} {tokens : List Token} (scanned : scan text = .ok tokens) :
    Rejoins tokens := by
  obtain ⟨body, isTokens, each⟩ := (laid_of_scanFrom scanned).ended
  subst isTokens
  intro listed isListed
  have contributes : ∀ token ∈ body, token.Contributes := fun token member =>
    .inr (each token member)
  have isProper : proper body = body :=
    List.filter_eq_self.mpr fun token member => decide_eq_true (each token member).1
  have listedFacts : (∀ token ∈ listed, token.Contributes) ∧ proper listed = body := by
    rcases isListed with rfl | rfl
    · refine ⟨List.forall_mem_append.mpr ⟨contributes, List.forall_mem_singleton.mpr ?_⟩, ?_⟩
      · exact .inl ⟨rfl, rfl⟩
      · rw [proper, List.filter_append]
        exact (congrArg (· ++ []) isProper).trans (List.append_nil body)
    · rw [List.dropLast_concat]
      exact ⟨contributes, isProper⟩
  obtain ⟨again, scans, same⟩ := scans_joined listedFacts.1 0
  refine ⟨_, scans.scan_eq (by simp [EndsWord]), ?_⟩
  rw [List.map_append, same, listedFacts.2, List.map_append]
  rfl

end Rejoining

end Token

end ExprCalculus
