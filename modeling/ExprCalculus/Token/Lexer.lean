import ExprCalculus.Token.Basic
import ExprCalculus.Text.LowerCase

/-!
# Reading tokens

`Token.scan` splits a text into tokens by longest match.  Blanks separate tokens
and are dropped; each other character belongs to exactly one token.  A token of
a reserved name is recognised in any case and keeps the lower-case name.
-/

namespace ExprCalculus

namespace Token

def startsName (character : Char) : Bool :=
  character = '_' || Text.isLetter character

def continuesName (character : Char) : Bool :=
  startsName character || Text.isDigit character

/-- The longest run of digits, at most one point before the exponent, and one
exponent letter with an optional sign, and what follows it. -/
def numberRun (pointSeen exponentSeen : Bool) :
    List Char → List Char × List Char
  | [] => ([], [])
  | character :: rest =>
      if Text.isDigit character then
        let (run, after) := numberRun pointSeen exponentSeen rest
        (character :: run, after)
      else if character = '.' && !pointSeen && !exponentSeen then
        let (run, after) := numberRun true exponentSeen rest
        (character :: run, after)
      else if (character = 'e' || character = 'E') && !exponentSeen then
        match rest with
        | [] => ([character], [])
        | next :: afterNext =>
            if next = '+' || next = '-' then
              let (run, after) := numberRun pointSeen true afterNext
              (character :: next :: run, after)
            else
              let (run, after) := numberRun pointSeen true (next :: afterNext)
              (character :: run, after)
      else
        ([], character :: rest)

theorem append_numberRun (pointSeen exponentSeen : Bool) (characters : List Char) :
    (numberRun pointSeen exponentSeen characters).1 ++
        (numberRun pointSeen exponentSeen characters).2 = characters := by
  fun_induction numberRun pointSeen exponentSeen characters <;> simp_all

theorem length_numberRun_le (pointSeen exponentSeen : Bool)
    (characters : List Char) :
    (numberRun pointSeen exponentSeen characters).2.length ≤ characters.length := by
  have lengths := congrArg List.length
    (append_numberRun pointSeen exponentSeen characters)
  simp only [List.length_append] at lengths
  omega

theorem length_dropWhile_le (keep : Char → Bool) (characters : List Char) :
    (characters.dropWhile keep).length ≤ characters.length :=
  (List.dropWhile_sublist keep).length_le

/-- The kind and text of a token made of one character. -/
def single? (character : Char) : Option (Kind × String) :=
  if "+-*/^%".toList.contains character then
    some (.operator, character.toString)
  else if character = '(' then
    some (.leftParenthesis, "(")
  else if character = ')' then
    some (.rightParenthesis, ")")
  else if character = ',' then
    some (.comma, ",")
  else if character = '!' then
    some (.factorial, "!")
  else
    none

def ofName (name : String) (position : Nat) : Token :=
  let lowered := Text.toLower name
  if (constantValue? lowered).isSome then
    ⟨.constant, lowered, position⟩
  else if functionWords.contains lowered then
    ⟨.function, lowered, position⟩
  else
    ⟨.identifier, name, position⟩

/-- The token at the start of a list of characters without a leading blank, its
number of characters, and what follows it. -/
def first (position : Nat) (character : Char) (rest : List Char) :
    Except LexError (Token × Nat × List Char) :=
  if Text.isDigit character || character = '.' then
    let split := numberRun (character = '.') false rest
    let literal := character :: split.1
    if (Decimal.readCharacters? literal).isSome then
      .ok (⟨.number, String.ofList literal, position⟩, literal.length, split.2)
    else
      .error (.invalidNumber (String.ofList literal) position)
  else if startsName character then
    let name := character :: rest.takeWhile continuesName
    .ok (ofName (String.ofList name) position, name.length,
      rest.dropWhile continuesName)
  else
    match single? character with
    | some (kind, text) => .ok (⟨kind, text, position⟩, 1, rest)
    | none => .error (.unexpected character position)

theorem length_of_first {position : Nat} {character : Char}
    {rest : List Char} {result : Token × Nat × List Char}
    (found : first position character rest = .ok result) :
    result.2.2.length ≤ rest.length := by
  simp only [first] at found
  split at found
  · split at found
    · cases found
      exact length_numberRun_le _ _ _
    · contradiction
  · split at found
    · cases found
      exact length_dropWhile_le _ _
    · split at found
      · cases found
        exact Nat.le_refl _
      · contradiction

/-- The tokens of a list of characters whose first has the given offset, closed
by an end token. -/
def scanFrom (position : Nat) : List Char → Except LexError (List Token)
  | [] => .ok [⟨.finish, "", position⟩]
  | character :: rest =>
      if Text.isBlank character then
        scanFrom (position + 1) rest
      else
        match found : first position character rest with
        | .error problem => .error problem
        | .ok (token, length, after) =>
            have : after.length ≤ rest.length := length_of_first found
            (scanFrom (position + length) after).map (token :: ·)
termination_by characters => characters.length
decreasing_by
  · simp
  · simp only [List.length_cons]
    omega

def scan (text : String) : Except LexError (List Token) :=
  scanFrom 0 text.toList

def scan? : Option String → Except LexError (List Token)
  | none => .error .noText
  | some text => scan text

end Token

end ExprCalculus
