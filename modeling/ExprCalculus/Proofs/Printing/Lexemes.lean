import ExprCalculus.Proofs.Printing.Constants

/-!
# Tokens of plain texts

In a text of ASCII characters every identifier is scanned again as itself, and so is its
lower case.  A number that does not overflow is spelled as it is, since a literal has no
sign.  These are the facts about single tokens that make a tree printable.
-/

namespace ExprCalculus

namespace Text

def IsAscii (characters : List Char) : Prop :=
  ∀ character ∈ characters, character.toNat < 128

variable {characters : List Char}

/-- The lower case of ASCII characters is taken character by character. -/
theorem lowerAfter_ascii (ascii : IsAscii characters) (before : List Char) :
    lowerAfter before characters = characters.map Char.toLower := by
  induction characters generalizing before with
  | nil => rfl
  | cons character rest ih =>
      obtain ⟨small, restAscii⟩ := List.forall_mem_cons.mp ascii
      have notSigma : character ≠ 'Σ' := by
        rintro rfl
        revert small
        decide
      rw [lowerAfter, if_neg notSigma, lowerCharacter, if_pos small, ih restAscii]
      rfl

theorem toList_toLower {text : String} (ascii : IsAscii text.toList) :
    (toLower text).toList = text.toList.map Char.toLower := by
  rw [toLower, String.toList_ofList, lowerAfter_ascii ascii]

theorem ascii_toLower {text : String} (ascii : IsAscii text.toList) :
    IsAscii (toLower text).toList := by
  have all : ∀ other : Char, other.toNat < 128 → other.toLower.toNat < 128 :=
    of_ascii (by decide)
  rw [toList_toLower ascii]
  intro image member
  obtain ⟨character, isMember, rfl⟩ := List.mem_map.mp member
  exact all character (ascii character isMember)

theorem toLower_toLower {text : String} (ascii : IsAscii text.toList) :
    toLower (toLower text) = toLower text := by
  have all : ∀ other : Char, other.toNat < 128 → other.toLower.toLower = other.toLower :=
    of_ascii (by decide)
  rw [← String.toList_inj, toList_toLower (ascii_toLower ascii), toList_toLower ascii,
    List.map_map]
  exact List.map_congr_left fun character member => all character (ascii character member)

end Text

namespace Token

open Text

variable {name : String} {characters : List Char}

theorem isName_map_toLower (ascii : IsAscii characters) (named : isName characters = true) :
    isName (characters.map Char.toLower) = true := by
  have all : ∀ other : Char, other.toNat < 128 →
      isBlank other.toLower = isBlank other ∧ startsName other.toLower = startsName other ∧
        continuesName other.toLower = continuesName other :=
    of_ascii (by decide)
  cases characters with
  | nil => cases named
  | cons start others =>
      obtain ⟨small, restAscii⟩ := List.forall_mem_cons.mp ascii
      obtain ⟨sameBlank, sameStart, -⟩ := all start small
      rw [isName, Bool.and_eq_true, List.all_eq_true] at named
      rw [List.map_cons, isName, sameBlank, sameStart, named.1, Bool.true_and, List.all_map,
        List.all_eq_true]
      intro character member
      rw [Function.comp_apply, (all character (restAscii character member)).2.2]
      exact named.2 character member

/-- A name whose token is an identifier is scanned whole as that. -/
theorem isIdentifier_of_isName {start : Nat} {text : String} {position : Int}
    (named : isName name.toList = true) (identifier : ofName name start = ⟨.identifier, text, position⟩) :
    IsIdentifier name := by
  obtain ⟨-, isToken⟩ := ofName_identifier identifier
  have scans := scans_name named 0
  rw [String.ofList_toList, isToken] at scans
  exact ⟨_, scans.scan_eq nofun⟩

/-- The lower case of an ASCII identifier is an identifier. -/
theorem IsIdentifier.toLower (ascii : IsAscii name.toList) (identifier : IsIdentifier name) :
    IsIdentifier (Text.toLower name) := by
  obtain ⟨named, isToken⟩ := isName_of_identifier identifier
  have lowered := isToken 0
  unfold ofName at lowered
  dsimp only at lowered
  split at lowered
  · cases lowered
  split at lowered
  · cases lowered
  next notConstant notFunction =>
    have namedLower : isName (Text.toLower name).toList = true := by
      rw [toList_toLower ascii]
      exact isName_map_toLower ascii named
    have isLower : ofName (Text.toLower name) 0 = ⟨.identifier, Text.toLower name, (0 : Nat)⟩ := by
      unfold ofName
      rw [toLower_toLower ascii]
      exact (if_neg notConstant).trans (if_neg notFunction)
    exact isIdentifier_of_isName namedLower isLower

end Token

namespace Expr

open Binary64

variable {value : Float}

def isPlain (value : Float) : Bool :=
  !value.isNaN && !value.isInf && !(value == 0.0 && signBit value) && !decide (value < 0.0)

theorem spelled_of_isPlain (plain : isPlain value = true) : spelled value = .const value := by
  simp only [isPlain, Bool.and_eq_true, Bool.not_eq_true', decide_eq_false_iff_not] at plain
  obtain ⟨⟨⟨defined, bounded⟩, notZero⟩, notNegative⟩ := plain
  unfold spelled
  rw [defined, bounded, notZero, if_neg Bool.false_ne_true, if_neg Bool.false_ne_true,
    if_neg Bool.false_ne_true, if_neg notNegative]

/-- The named constants are spelled as they are. -/
theorem spelled_constantValue {word : String} (isValue : Token.constantValue? word = some value) :
    spelled value = .const value := by
  apply spelled_of_isPlain
  unfold Token.constantValue? at isValue
  split at isValue <;> simp only [Option.some.injEq, reduceCtorEq] at isValue
  all_goals
    subst isValue
    decide +kernel

/-- A double with the bits of a finite double without a sign is spelled as it is. -/
theorem spelled_ofBits {bits : Nat} (small : bits < 2047 * 2 ^ 52) :
    spelled (Float.ofBits (UInt64.ofNat bits)) = .const (Float.ofBits (UInt64.ofNat bits)) := by
  have parts := unpacked_ofBits (UInt64.ofNat bits)
  have sameBits : (UInt64.ofNat bits).toNat = bits := by
    rw [UInt64.toNat_ofNat']
    omega
  generalize Float.ofBits (UInt64.ofNat bits) = double at parts
  have unsigned : ¬ 2 ^ 63 ≤ bits := by omega
  have notFull : bits / 2 ^ 52 % 2 ^ 11 ≠ 2047 := by omega
  rw [sameBits, partsOfBits, if_neg notFull, if_neg unsigned] at parts
  split at parts
  next =>
    split at parts
    next =>
      have isZero : double = 0.0 := unpacked_injective parts
      rw [isZero]
      exact spelled_of_isPlain (by decide)
    next => exact Printing.spelled_positive parts
  next => exact Printing.spelled_positive parts

theorem nearestBits?_lt {numerator denominator bits : Nat}
    (found : nearestBits? numerator denominator = some bits) : bits < 2047 * 2 ^ 52 := by
  unfold nearestBits? at found
  dsimp only at found
  split at found
  · cases found
    decide
  split at found
  next small =>
    cases found
    exact small
  · cases found

/-- A literal without a sign that does not overflow is spelled as it is. -/
theorem toFloat_unsigned (decimal : Decimal) :
    decimal.toFloat false = infinity ∨
      spelled (decimal.toFloat false) = .const (decimal.toFloat false) := by
  unfold Decimal.toFloat
  dsimp only
  split
  next => exact .inr (spelled_of_isPlain (by decide))
  split
  next => exact .inl rfl
  next =>
    unfold ofRatio?
    cases found : nearestBits? decimal.toRatio.1 decimal.toRatio.2 with
    | none => exact .inl rfl
    | some bits => exact .inr (spelled_ofBits (nearestBits?_lt found))

end Expr

namespace Token

open Text Decimal

variable {position length : Nat} {character : Char} {rest after : List Char} {token : Token}
  {tokens : List Token}

theorem isNumeric_numberRun (pointSeen exponentSeen : Bool) (characters : List Char) :
    ∀ other ∈ (numberRun pointSeen exponentSeen characters).1, isNumeric other = true := by
  have isExponent (letter : Char) (seen : Bool)
      (holds : ((decide (letter = 'e') || decide (letter = 'E')) && !seen) = true) :
      isNumeric letter = true := by
    simp only [Bool.and_eq_true, Bool.or_eq_true, decide_eq_true_eq] at holds
    rcases holds.1 with rfl | rfl <;> rfl
  fun_induction numberRun pointSeen exponentSeen characters with
  | case1 => exact List.forall_mem_nil _
  | case2 _ _ character rest digit run after taken ih =>
      rw [taken] at ih
      exact List.forall_mem_cons.mpr ⟨isNumeric_of_isDigit digit, ih⟩
  | case3 _ _ character rest _ isPoint run after taken ih =>
      rw [taken] at ih
      simp only [Bool.and_eq_true, decide_eq_true_eq] at isPoint
      obtain ⟨⟨rfl, -⟩, -⟩ := isPoint
      exact List.forall_mem_cons.mpr ⟨rfl, ih⟩
  | case4 _ _ character _ _ isLetter =>
      exact List.forall_mem_singleton.mpr (isExponent _ _ isLetter)
  | case5 _ _ character _ _ isLetter next afterNext isSign run after taken ih =>
      rw [taken] at ih
      have sign : isNumeric next = true := by
        simp only [Bool.or_eq_true, decide_eq_true_eq] at isSign
        rcases isSign with rfl | rfl <;> rfl
      exact List.forall_mem_cons.mpr ⟨isExponent _ _ isLetter, List.forall_mem_cons.mpr ⟨sign, ih⟩⟩
  | case6 _ _ character _ _ isLetter next afterNext _ run after taken ih =>
      rw [taken] at ih
      exact List.forall_mem_cons.mpr ⟨isExponent _ _ isLetter, ih⟩
  | case7 => exact List.forall_mem_nil _

/-- A number is made of the characters of a literal without a sign. -/
theorem first_number {text : String} {start : Int}
    (found : Token.first position character rest = .ok (⟨.number, text, start⟩, length, after)) :
    (isDigit character = true ∨ character = '.') ∧
      text = String.ofList (character :: (numberRun (character = '.') false rest).1) := by
  simp only [Token.first] at found
  split at found
  next starts =>
    rw [Bool.or_eq_true, decide_eq_true_eq] at starts
    split at found
    · cases found
      exact ⟨starts, rfl⟩
    · cases found
  split at found
  · rw [Except.ok.injEq, Prod.mk.injEq] at found
    have named := found.1
    unfold ofName at named
    dsimp only at named
    repeat' split at named
    all_goals cases named
  split at found
  next single =>
    cases found
    unfold single? at single
    repeat' split at single
    all_goals cases single
  · cases found

/-- What a token of a plain text is taken for when it is read again: an identifier for
itself, and a number for a constant without a sign. -/
structure Rescans (token : Token) : Prop where
  identifier : token.kind = .identifier → IsAscii token.text.toList ∧ IsIdentifier token.text
  number : token.kind = .number → ∀ value, Decimal.read? token.text = some value →
    value = Binary64.infinity ∨ Expr.spelled value = .const value

theorem after_subset (found : Token.first position character rest = .ok (token, length, after)) :
    after ⊆ rest := by
  simp only [Token.first] at found
  split at found
  · split at found
    · cases found
      have whole := append_numberRun (character = '.') false rest
      intro other member
      rw [← whole]
      exact List.mem_append_right _ member
    · cases found
  split at found
  · rw [Except.ok.injEq, Prod.mk.injEq, Prod.mk.injEq] at found
    obtain ⟨-, -, rfl⟩ := found
    exact List.dropWhile_subset _
  split at found
  · cases found
    exact List.Subset.refl _
  · cases found

theorem rescans_first (ascii : IsAscii (character :: rest)) (visible : isBlank character = false)
    (found : Token.first position character rest = .ok (token, length, after)) :
    token.Rescans := by
  obtain ⟨kind, text, start⟩ := token
  refine ⟨?_, ?_⟩
  · rintro rfl
    obtain ⟨starts, identifier⟩ := first_identifier found
    obtain ⟨rfl, -⟩ := ofName_identifier identifier
    have continues : (rest.takeWhile continuesName).all continuesName = true := List.all_takeWhile
    dsimp only
    rw [String.toList_ofList]
    refine ⟨?_, isIdentifier_of_isName ?_ identifier⟩
    · obtain ⟨small, restAscii⟩ := List.forall_mem_cons.mp ascii
      refine List.forall_mem_cons.mpr ⟨small, fun other member => ?_⟩
      exact restAscii other (List.takeWhile_subset _ member)
    · rw [String.toList_ofList, isName, visible, starts, continues]
      rfl
  · rintro rfl value isValue
    obtain ⟨starts, isText⟩ := first_number found
    have numeric := isNumeric_numberRun (character = '.') false rest
    dsimp only at isValue
    rw [isText, Decimal.read?, String.toList_ofList, readCharacters?_numeric starts numeric,
      Option.map_eq_some_iff] at isValue
    obtain ⟨decimal, -, rfl⟩ := isValue
    exact Expr.toFloat_unsigned decimal

/-- The tokens of a plain text. -/
theorem rescans_scanFrom {characters : List Char} (ascii : IsAscii characters)
    (scanned : scanFrom position characters = .ok tokens) : ∀ token ∈ tokens, token.Rescans := by
  induction scanned using scanFrom_induction with
  | finish position =>
      refine List.forall_mem_singleton.mpr ⟨?_, ?_⟩ <;> intro isKind <;> cases isKind
  | blank _ _ ih => exact ih (List.forall_mem_cons.mp ascii).2
  | @token _ _ _ _ _ after _ visible found _ ih =>
      have restAscii := (List.forall_mem_cons.mp ascii).2
      have afterAscii : IsAscii after := fun other member =>
        restAscii other (after_subset found member)
      exact List.forall_mem_cons.mpr ⟨rescans_first ascii visible found, ih afterAscii⟩

end Token

end ExprCalculus
