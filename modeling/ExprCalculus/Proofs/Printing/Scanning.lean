import ExprCalculus.Proofs.Decimals.Literal
import ExprCalculus.Proofs.Scanning.Runs

/-!
# Scanning pieces of text

A text is scanned piece by piece: what a piece contributes to the tokens depends only
on where it begins and, for names and numbers, on the character after it.
-/

namespace ExprCalculus

namespace Token

open Text Decimal

/-- Some characters at a position are scanned as some tokens, whatever follows them as
long as it begins in an allowed way. -/
def Scans (allowed : List Char → Prop) (position : Nat) (characters : List Char)
    (tokens : List Token) : Prop :=
  ∀ tail later, allowed tail → scanFrom (position + characters.length) tail = .ok later →
    scanFrom position (characters ++ tail) = .ok (tokens ++ later)

def Anything (_ : List Char) : Prop :=
  True

variable {allowed before : List Char → Prop} {position : Nat} {first second characters : List Char}
  {tokens firstTokens secondTokens : List Token}

/-- Two pieces are scanned one after the other. -/
theorem Scans.append (firstScans : Scans before position first firstTokens)
    (secondScans : Scans allowed (position + first.length) second secondTokens)
    (boundary : ∀ tail, allowed tail → before (second ++ tail)) :
    Scans allowed position (first ++ second) (firstTokens ++ secondTokens) := by
  intro tail later isAllowed scanned
  rw [List.length_append, ← Nat.add_assoc] at scanned
  rw [List.append_assoc, List.append_assoc]
  exact firstScans _ _ (boundary tail isAllowed) (secondScans tail later isAllowed scanned)

/-- The tokens of a whole text. -/
theorem Scans.scan_eq {text : String} (scans : Scans allowed 0 text.toList tokens)
    (atEnd : allowed []) :
    scan text = .ok (tokens ++ [⟨.finish, "", (0 + text.toList.length : Nat)⟩]) := by
  have scanned := scans [] _ atEnd (scanFrom_nil _)
  rw [List.append_nil] at scanned
  exact scanned

/-- A blank leaves no token. -/
theorem scans_blank (allowed : List Char → Prop) (position : Nat) :
    Scans allowed position [' '] [] := by
  intro tail later _ scanned
  exact scanFrom_blank (by decide) scanned

section Singles

variable {character : Char} {kind : Kind} {text : String}

/-- A character with a token of its own neither begins another one nor continues one. -/
theorem plain_of_single (found : single? character = some (kind, text)) :
    isBlank character = false ∧ continuesName character = false ∧ character ≠ '.' := by
  have listed : character ∈ "+-*/^%(),!".toList := by
    unfold single? at found
    split at found
    next sign =>
      have subset : "+-*/^%".toList ⊆ "+-*/^%(),!".toList := by decide
      exact subset (List.contains_iff_mem.mp sign)
    split at found
    next opening => exact opening ▸ by decide
    split at found
    next closing => exact closing ▸ by decide
    split at found
    next comma => exact comma ▸ by decide
    split at found
    next mark => exact mark ▸ by decide
    next => cases found
  have checked : ("+-*/^%(),!".toList.all fun other =>
      !isBlank other && !continuesName other && other != '.') = true := by
    decide
  simpa [and_assoc] using List.all_eq_true.mp checked character listed

/-- A character with a token of its own is scanned as that token. -/
theorem scans_single (found : single? character = some (kind, text))
    (allowed : List Char → Prop) (position : Nat) :
    Scans allowed position [character] [⟨kind, text, position⟩] := by
  intro tail later _ scanned
  obtain ⟨visible, notName, notPoint⟩ := plain_of_single found
  rw [continuesName, Bool.or_eq_false_iff] at notName
  refine scanFrom_visible visible ?_ scanned
  unfold Token.first
  rw [if_neg (by simp [notName.2, notPoint]), if_neg (by simp [notName.1]), found]
  rfl

theorem separates_single (found : single? character = some (kind, text)) (rest : List Char) :
    Separates (character :: rest) := by
  rintro _ ⟨⟩
  exact (plain_of_single found).2

theorem separates_blank (rest : List Char) : Separates (' ' :: rest) := by
  rintro _ ⟨⟩
  decide

end Singles

theorem isBlank_of_isDigit {character : Char} (digit : isDigit character = true) :
    isBlank character = false := by
  have all : ∀ other : Char, other.toNat < 128 → isDigit other = true → isBlank other = false :=
    of_ascii (by decide)
  exact all character (isDigit_ascii digit) digit

/-- A literal is scanned as one number. -/
theorem scans_literal {decimal : Decimal} (isLiteral : IsLiteral characters decimal)
    (position : Nat) :
    Scans Separates position characters [⟨.number, String.ofList characters, position⟩] := by
  intro tail later separates scanned
  have readable := isLiteral.readCharacters?
  obtain ⟨character, run, rfl⟩ := List.exists_cons_of_ne_nil isLiteral.ne_nil
  obtain ⟨starts, taken⟩ := numberRun_literal isLiteral separates
  have notPoint : character ≠ '.' := by
    rintro rfl
    cases starts
  rw [List.cons_append]
  refine scanFrom_visible (isBlank_of_isDigit starts) ?_ scanned
  unfold Token.first
  rw [if_pos (by simp [starts])]
  dsimp only
  rw [decide_eq_false notPoint, taken, if_pos (by rw [readable]; rfl)]

section Names

def isName : List Char → Bool
  | [] => false
  | start :: others => !isBlank start && startsName start && others.all continuesName

theorem not_isDigit_of_startsName {character : Char} (starts : startsName character = true) :
    isDigit character = false := by
  have all : ∀ other : Char, other.toNat < 128 → isDigit other = true →
      startsName other = false := of_ascii (by decide)
  rw [Bool.eq_false_iff]
  intro digit
  rw [all character (isDigit_ascii digit) digit] at starts
  cases starts

/-- A name is scanned as one token. -/
theorem scans_name (named : isName characters = true) (position : Nat) :
    Scans Separates position characters [ofName (String.ofList characters) position] := by
  intro tail later separates scanned
  cases characters with
  | nil => cases named
  | cons start others =>
      rw [isName, Bool.and_eq_true, Bool.and_eq_true, Bool.not_eq_true', List.all_eq_true] at named
      obtain ⟨⟨visible, starts⟩, continues⟩ := named
      have notPoint : start ≠ '.' := by
        rintro rfl
        revert starts
        decide
      have taken : (others ++ tail).takeWhile continuesName = others ∧
          (others ++ tail).dropWhile continuesName = tail := by
        rw [List.takeWhile_append_of_pos continues, List.dropWhile_append_of_pos continues]
        cases tail with
        | nil => exact ⟨List.append_nil others, rfl⟩
        | cons next rest =>
            obtain ⟨notName, -⟩ := separates next rfl
            have stops : ¬ continuesName next = true := by
              rw [notName]
              exact Bool.false_ne_true
            rw [List.takeWhile_cons_of_neg stops, List.dropWhile_cons_of_neg stops]
            exact ⟨List.append_nil others, rfl⟩
      rw [List.cons_append]
      refine scanFrom_visible visible ?_ scanned
      unfold Token.first
      rw [if_neg (by simp [not_isDigit_of_startsName starts, notPoint]), if_pos starts]
      dsimp only
      rw [taken.1, taken.2]

theorem position_ofName (name : String) (position : Nat) :
    (ofName name position).position = position := by
  unfold ofName
  dsimp only
  split
  · rfl
  split <;> rfl

theorem position_of_first {character : Char} {rest after : List Char} {token : Token}
    {length : Nat} (found : Token.first position character rest = .ok (token, length, after)) :
    token.position = position := by
  simp only [Token.first] at found
  split at found
  · split at found
    · cases found
      rfl
    · cases found
  split at found
  · cases found
    exact position_ofName _ position
  split at found
  · cases found
    rfl
  · cases found

/-- No token begins before the text does. -/
theorem le_position_of_scanFrom (scanned : scanFrom position characters = .ok tokens) :
    ∀ token ∈ tokens, (position : Int) ≤ token.position := by
  induction scanned using scanFrom_induction with
  | finish position => exact List.forall_mem_singleton.mpr (Int.le_refl _)
  | blank _ _ ih =>
      intro token member
      have least := ih token member
      omega
  | token _ found _ ih =>
      have start := position_of_first found
      refine List.forall_mem_cons.mpr ⟨by omega, fun other member => ?_⟩
      have least := ih other member
      omega

/-- An identifier is made of the characters of a name. -/
theorem first_identifier {character : Char} {rest after : List Char} {name : String}
    {start : Int} {length : Nat}
    (found : Token.first position character rest = .ok (⟨.identifier, name, start⟩, length, after)) :
    startsName character = true ∧
      ofName (String.ofList (character :: rest.takeWhile continuesName)) position =
        ⟨.identifier, name, start⟩ := by
  simp only [Token.first] at found
  split at found
  · split at found <;> cases found
  split at found
  next starts =>
    rw [Except.ok.injEq, Prod.mk.injEq] at found
    exact ⟨starts, found.1⟩
  split at found
  next single =>
    cases found
    unfold single? at single
    repeat' split at single
    all_goals cases single
  · cases found

/-- A name whose token is an identifier is not reserved. -/
theorem ofName_identifier {name text : String} {start : Int}
    (identifier : ofName name position = ⟨.identifier, text, start⟩) :
    text = name ∧ ∀ other : Nat, ofName name other = ⟨.identifier, name, other⟩ := by
  unfold ofName at identifier ⊢
  dsimp only at identifier ⊢
  split at identifier
  · cases identifier
  split at identifier
  · cases identifier
  next notConstant notFunction =>
    cases identifier
    refine ⟨rfl, fun other => ?_⟩
    rw [if_neg notConstant, if_neg notFunction]

def IsIdentifier (name : String) : Prop :=
  ∃ stop, scan name = .ok [⟨.identifier, name, 0⟩, stop]

/-- An identifier is a name that is not reserved. -/
theorem isName_of_identifier {name : String} (isIdentifier : IsIdentifier name) :
    isName name.toList = true ∧ ∀ position : Nat, ofName name position = ⟨.identifier, name, position⟩ := by
  obtain ⟨stop, scanned⟩ := isIdentifier
  unfold scan at scanned
  generalize isText : name.toList = text at scanned
  cases text with
  | nil =>
      rw [scanFrom_nil] at scanned
      cases scanned
  | cons start others =>
      rcases scanFrom_cons scanned with ⟨-, later⟩ | ⟨token, length, after, later, visible, found, -, same⟩
      · have least : (1 : Int) ≤ 0 := le_position_of_scanFrom later _ List.mem_cons_self
        omega
      · rw [List.cons_eq_cons] at same
        obtain ⟨rfl, -⟩ := same
        obtain ⟨starts, identifier⟩ := first_identifier found
        obtain ⟨sameName, unreserved⟩ := ofName_identifier identifier
        have whole : others.takeWhile continuesName = others := by
          rw [sameName, String.toList_ofList] at isText
          exact (List.cons_eq_cons.mp isText).2
        have continues : others.all continuesName = true := by
          rw [← whole]
          exact List.all_takeWhile
        refine ⟨?_, ?_⟩
        · rw [isName, visible, starts, continues]
          rfl
        · rw [sameName]
          exact unreserved

/-- The reserved names of functions are scanned as such. -/
theorem ofName_functionWord {word : String} (reserved : word ∈ functionWords) :
    isName word.toList = true ∧ ∀ position : Nat, ofName word position = ⟨.function, word, position⟩ := by
  have checked : ∀ other ∈ functionWords, isName other.toList = true ∧
      toLower other = other ∧ (constantValue? other).isSome = false := by
    decide
  obtain ⟨named, lowered, notConstant⟩ := checked word reserved
  refine ⟨named, fun position => ?_⟩
  unfold ofName
  dsimp only
  rw [lowered, notConstant, if_neg Bool.false_ne_true, if_pos (List.contains_iff_mem.mpr reserved)]

end Names

end Token

end ExprCalculus
