import ExprCalculus.Token.Lexer

/-!
# Runs of numbers

A number is scanned as the longest run of digits, at most one point before the exponent, and
one exponent letter with an optional sign.  Such runs are described by their three parts,
each of which may be missing; the scanner takes the longest one that the text begins with.
What it takes does not depend on what comes later, as long as that begins with a blank or
with the character that ended the run.
-/

namespace ExprCalculus

namespace Token

open Text

def AllDigits (characters : List Char) : Prop :=
  ∀ character ∈ characters, isDigit character = true

/-- Nothing, or a point and the digits after it. -/
inductive IsFractionRun : List Char → Prop
  | absent : IsFractionRun []
  | point {digits : List Char} : AllDigits digits → IsFractionRun ('.' :: digits)

/-- Nothing, or an exponent letter, an optional sign and the digits after it. -/
inductive IsExponentRun : List Char → Prop
  | absent : IsExponentRun []
  | unsigned {letter : Char} {digits : List Char} : letter ∈ ['e', 'E'] → AllDigits digits →
      IsExponentRun (letter :: digits)
  | signed {letter sign : Char} {digits : List Char} : letter ∈ ['e', 'E'] →
      sign ∈ ['+', '-'] → AllDigits digits → IsExponentRun (letter :: sign :: digits)

/-- What may follow in a run after a point or an exponent letter has been seen, or neither:
digits, then a fraction unless there was a point, then an exponent unless there was one. -/
def ContinuesRun (pointSeen exponentSeen : Bool) (characters : List Char) : Prop :=
  ∃ whole fraction exponent, characters = whole ++ (fraction ++ exponent) ∧ AllDigits whole ∧
    IsFractionRun fraction ∧ IsExponentRun exponent ∧
    (pointSeen = true ∨ exponentSeen = true → fraction = []) ∧
    (exponentSeen = true → exponent = [])

/-- Digits, at most one point before the exponent, and one exponent letter with an optional
sign. -/
def IsNumberRun (characters : List Char) : Prop :=
  ContinuesRun false false characters

/-- The longest run that some characters begin with. -/
structure IsLongestRun (run characters : List Char) : Prop where
  begins : run <+: characters
  isRun : IsNumberRun run
  longest : ∀ other, other <+: characters → IsNumberRun other → other.length ≤ run.length

section Continuations

variable {pointSeen exponentSeen : Bool} {character : Char} {rest : List Char}

theorem continuesRun_nil : ContinuesRun pointSeen exponentSeen [] :=
  ⟨[], [], [], rfl, List.forall_mem_nil _, .absent, .absent, fun _ => rfl, fun _ => rfl⟩

/-- After the exponent letter only digits follow. -/
theorem continuesRun_exponentSeen :
    ContinuesRun pointSeen true rest ↔ AllDigits rest := by
  constructor
  · rintro ⟨whole, fraction, exponent, rfl, digits, -, -, noFraction, noExponent⟩
    rw [noFraction (.inr rfl), noExponent rfl, List.append_nil, List.append_nil]
    exact digits
  · intro digits
    exact ⟨rest, [], [], by simp, digits, .absent, .absent, fun _ => rfl, fun _ => rfl⟩

/-- A digit may stand anywhere and changes nothing. -/
theorem continuesRun_digit (digit : isDigit character = true) :
    ContinuesRun pointSeen exponentSeen (character :: rest) ↔
      ContinuesRun pointSeen exponentSeen rest := by
  constructor
  · rintro ⟨whole, fraction, exponent, shape, digits, isFraction, isExponent, seen⟩
    cases whole with
    | cons first others =>
        obtain ⟨-, rfl⟩ := List.cons.inj shape
        exact ⟨others, fraction, exponent, rfl, (List.forall_mem_cons.mp digits).2, isFraction,
          isExponent, seen⟩
    | nil =>
        -- Neither a point nor an exponent letter is a digit.
        exfalso
        cases isFraction with
        | point => cases (List.cons.inj shape).1; cases digit
        | absent =>
            cases isExponent with
            | absent => cases shape
            | unsigned isLetter | signed isLetter =>
                cases (List.cons.inj shape).1
                simp only [List.mem_cons, List.not_mem_nil, or_false] at isLetter
                rcases isLetter with rfl | rfl <;> cases digit
  · rintro ⟨whole, fraction, exponent, rfl, digits, parts⟩
    exact ⟨character :: whole, fraction, exponent, rfl, List.forall_mem_cons.mpr ⟨digit, digits⟩,
      parts⟩

/-- A point stands before the exponent and only once. -/
theorem continuesRun_point :
    ContinuesRun pointSeen exponentSeen ('.' :: rest) ↔
      pointSeen = false ∧ exponentSeen = false ∧ ContinuesRun true false rest := by
  constructor
  · rintro ⟨whole, fraction, exponent, shape, digits, isFraction, isExponent, noFraction, -⟩
    cases whole with
    | cons first others =>
        cases (List.cons.inj shape).1
        cases (List.forall_mem_cons.mp digits).1
    | nil =>
        cases isFraction with
        | @point following followingDigits =>
            obtain ⟨-, rfl⟩ := List.cons.inj shape
            have unseen : ¬ (pointSeen = true ∨ exponentSeen = true) := fun seen =>
              absurd (noFraction seen) (List.cons_ne_nil _ _)
            obtain ⟨noPoint, noLetter⟩ := not_or.mp unseen
            exact ⟨Bool.eq_false_iff.mpr noPoint, Bool.eq_false_iff.mpr noLetter, following, [],
              exponent, rfl, followingDigits, .absent, isExponent, fun _ => rfl,
              fun seen => absurd seen Bool.false_ne_true⟩
        | absent =>
            cases isExponent with
            | absent => cases shape
            | unsigned isLetter | signed isLetter =>
                cases (List.cons.inj shape).1
                simp at isLetter
  · rintro ⟨rfl, rfl, whole, fraction, exponent, rfl, digits, -, isExponent, noFraction, -⟩
    rw [noFraction (.inl rfl)]
    exact ⟨[], '.' :: whole, exponent, rfl, List.forall_mem_nil _, .point digits, isExponent,
      fun seen => absurd seen (by simp), fun seen => absurd seen Bool.false_ne_true⟩

/-- An exponent letter stands only once; after it comes an optional sign and then digits. -/
theorem continuesRun_letter (isLetter : character ∈ ['e', 'E']) :
    ContinuesRun pointSeen exponentSeen (character :: rest) ↔
      exponentSeen = false ∧ (AllDigits rest ∨
        ∃ sign digits, rest = sign :: digits ∧ sign ∈ ['+', '-'] ∧ AllDigits digits) := by
  have notDigit : ¬ isDigit character = true := by
    simp only [List.mem_cons, List.not_mem_nil, or_false] at isLetter
    rcases isLetter with rfl | rfl <;> decide
  constructor
  · rintro ⟨whole, fraction, exponent, shape, digits, isFraction, isExponent, -, noExponent⟩
    cases whole with
    | cons first others =>
        cases (List.cons.inj shape).1
        exact absurd (List.forall_mem_cons.mp digits).1 notDigit
    | nil =>
        cases isFraction with
        | point =>
            cases (List.cons.inj shape).1
            simp at isLetter
        | absent =>
            have unseen : exponent ≠ [] → exponentSeen = false := fun present =>
              Bool.eq_false_iff.mpr fun seen => present (noExponent seen)
            cases isExponent with
            | absent => cases shape
            | unsigned _ following =>
                obtain ⟨-, rfl⟩ := List.cons.inj shape
                exact ⟨unseen (List.cons_ne_nil _ _), .inl following⟩
            | signed _ isSign following =>
                obtain ⟨-, rfl⟩ := List.cons.inj shape
                exact ⟨unseen (List.cons_ne_nil _ _), .inr ⟨_, _, rfl, isSign, following⟩⟩
  · rintro ⟨rfl, digits | ⟨sign, digits, rfl, isSign, areDigits⟩⟩
    · exact ⟨[], [], character :: rest, rfl, List.forall_mem_nil _, .absent,
        .unsigned isLetter digits, fun _ => rfl, fun seen => absurd seen Bool.false_ne_true⟩
    · exact ⟨[], [], character :: sign :: digits, rfl, List.forall_mem_nil _, .absent,
        .signed isLetter isSign areDigits, fun _ => rfl,
        fun seen => absurd seen Bool.false_ne_true⟩

/-- The scanner's test for an exponent letter. -/
theorem letter_of_test
    (isLetter : ((character = 'e' || character = 'E') && !exponentSeen) = true) :
    character ∈ ['e', 'E'] ∧ exponentSeen = false := by
  simpa using isLetter

/-- No other character stands in a run. -/
theorem starts_of_continuesRun
    (continues : ContinuesRun pointSeen exponentSeen (character :: rest)) :
    isDigit character = true ∨ character = '.' ∨ character ∈ ['e', 'E'] := by
  obtain ⟨whole, fraction, exponent, shape, digits, isFraction, isExponent, -⟩ := continues
  cases whole with
  | cons first others =>
      cases (List.cons.inj shape).1
      exact .inl (List.forall_mem_cons.mp digits).1
  | nil =>
      cases isFraction with
      | point => exact .inr (.inl (List.cons.inj shape).1)
      | absent =>
          cases isExponent with
          | absent => cases shape
          | unsigned isLetter | signed isLetter =>
              exact .inr (.inr ((List.cons.inj shape).1 ▸ isLetter))

end Continuations

/-- A text may stand in the place of another one: it is empty, or begins with a blank or with
the same character. -/
def Resumes (after tail : List Char) : Prop :=
  ∀ next ∈ tail.head?, next = ' ' ∨ after.head? = some next

section Longest

variable {pointSeen exponentSeen : Bool} {characters run after : List Char}

/-- The scanner takes a run. -/
theorem continuesRun_numberRun (pointSeen exponentSeen : Bool) (characters : List Char) :
    ContinuesRun pointSeen exponentSeen (numberRun pointSeen exponentSeen characters).1 := by
  fun_induction numberRun pointSeen exponentSeen characters with
  | case1 => exact continuesRun_nil
  | case2 _ _ character rest digit run after taken ih =>
      rw [taken] at ih
      exact (continuesRun_digit digit).mpr ih
  | case3 pointSeen exponentSeen character rest _ isPoint run after taken ih =>
      rw [taken] at ih
      simp only [Bool.and_eq_true, decide_eq_true_eq, Bool.not_eq_true'] at isPoint
      obtain ⟨⟨rfl, rfl⟩, rfl⟩ := isPoint
      exact continuesRun_point.mpr ⟨rfl, rfl, ih⟩
  | case4 _ _ character _ _ isLetter =>
      obtain ⟨listed, unseen⟩ := letter_of_test isLetter
      exact (continuesRun_letter listed).mpr ⟨unseen, .inl (List.forall_mem_nil _)⟩
  | case5 _ _ character _ _ isLetter next afterNext isSign run after taken ih =>
      rw [taken] at ih
      obtain ⟨listed, unseen⟩ := letter_of_test isLetter
      exact (continuesRun_letter listed).mpr ⟨unseen,
        .inr ⟨next, run, rfl, by simpa using isSign, continuesRun_exponentSeen.mp ih⟩⟩
  | case6 _ _ character _ _ isLetter next afterNext _ run after taken ih =>
      rw [taken] at ih
      obtain ⟨listed, unseen⟩ := letter_of_test isLetter
      exact (continuesRun_letter listed).mpr ⟨unseen, .inl (continuesRun_exponentSeen.mp ih)⟩
  | case7 => exact continuesRun_nil

/-- No longer run begins the characters than the one that the scanner takes. -/
theorem length_le_numberRun {other : List Char} (begins : other <+: characters)
    (continues : ContinuesRun pointSeen exponentSeen other) :
    other.length ≤ (numberRun pointSeen exponentSeen characters).1.length := by
  fun_induction numberRun pointSeen exponentSeen characters generalizing other with
  | case1 => exact begins.length_le
  | case2 _ _ character rest digit run after taken ih =>
      rw [taken] at ih
      cases other with
      | nil => exact Nat.zero_le _
      | cons start others =>
          obtain ⟨rfl, beginsRest⟩ := List.cons_prefix_cons.mp begins
          exact Nat.succ_le_succ (ih beginsRest ((continuesRun_digit digit).mp continues))
  | case3 _ _ character rest _ isPoint run after taken ih =>
      rw [taken] at ih
      simp only [Bool.and_eq_true, decide_eq_true_eq, Bool.not_eq_true'] at isPoint
      obtain ⟨⟨rfl, rfl⟩, rfl⟩ := isPoint
      cases other with
      | nil => exact Nat.zero_le _
      | cons start others =>
          obtain ⟨rfl, beginsRest⟩ := List.cons_prefix_cons.mp begins
          exact Nat.succ_le_succ (ih beginsRest (continuesRun_point.mp continues).2.2)
  | case4 _ _ character _ _ isLetter => exact begins.length_le
  | case5 _ _ character _ _ isLetter next afterNext isSign run after taken ih =>
      rw [taken] at ih
      rcases other with - | ⟨start, - | ⟨second, others⟩⟩
      · exact Nat.zero_le _
      · exact Nat.succ_le_succ (Nat.zero_le _)
      obtain ⟨rfl, beginsNext⟩ := List.cons_prefix_cons.mp begins
      obtain ⟨rfl, beginsRest⟩ := List.cons_prefix_cons.mp beginsNext
      obtain ⟨-, digits⟩ := (continuesRun_letter (letter_of_test isLetter).1).mp continues
      have following : AllDigits others := by
        rcases digits with allDigits | ⟨sign, digits, same, -, areDigits⟩
        · exact (List.forall_mem_cons.mp allDigits).2
        · rwa [(List.cons.inj same).2]
      exact Nat.succ_le_succ (Nat.succ_le_succ
        (ih beginsRest (continuesRun_exponentSeen.mpr following)))
  | case6 _ _ character _ _ isLetter next afterNext notSign run after taken ih =>
      rw [taken] at ih
      rcases other with - | ⟨start, others⟩
      · exact Nat.zero_le _
      obtain ⟨rfl, beginsRest⟩ := List.cons_prefix_cons.mp begins
      obtain ⟨-, digits⟩ := (continuesRun_letter (letter_of_test isLetter).1).mp continues
      have following : AllDigits others := by
        rcases digits with allDigits | ⟨sign, digits, rfl, isSign, -⟩
        · exact allDigits
        · obtain ⟨rfl, -⟩ := List.cons_prefix_cons.mp beginsRest
          exact absurd (by simpa using isSign) notSign
      exact Nat.succ_le_succ (ih beginsRest (continuesRun_exponentSeen.mpr following))
  | case7 pointSeen exponentSeen character rest notDigit notPoint notLetter =>
      rcases other with - | ⟨start, others⟩
      · exact Nat.zero_le _
      obtain ⟨rfl, -⟩ := List.cons_prefix_cons.mp begins
      exfalso
      rcases starts_of_continuesRun continues with digit | rfl | isLetter
      · exact notDigit digit
      · obtain ⟨rfl, rfl, -⟩ := continuesRun_point.mp continues
        exact notPoint rfl
      · obtain ⟨rfl, -⟩ := (continuesRun_letter isLetter).mp continues
        exact notLetter (by simpa using isLetter)

section Branches

variable {character sign : Char} {rest : List Char}

theorem numberRun_digit (digit : isDigit character = true) :
    numberRun pointSeen exponentSeen (character :: rest) =
      (character :: (numberRun pointSeen exponentSeen rest).1,
        (numberRun pointSeen exponentSeen rest).2) := by
  rw [numberRun.eq_def]
  simp [digit]

theorem numberRun_point (notDigit : ¬ isDigit character = true)
    (isPoint : (character = '.' && !pointSeen && !exponentSeen) = true) :
    numberRun pointSeen exponentSeen (character :: rest) =
      (character :: (numberRun true exponentSeen rest).1,
        (numberRun true exponentSeen rest).2) := by
  rw [numberRun.eq_def]
  dsimp only
  rw [if_neg notDigit, if_pos isPoint]

theorem numberRun_signed (notDigit : ¬ isDigit character = true)
    (notPoint : ¬ (character = '.' && !pointSeen && !exponentSeen) = true)
    (isLetter : ((character = 'e' || character = 'E') && !exponentSeen) = true)
    (isSign : (sign = '+' || sign = '-') = true) :
    numberRun pointSeen exponentSeen (character :: sign :: rest) =
      (character :: sign :: (numberRun pointSeen true rest).1,
        (numberRun pointSeen true rest).2) := by
  rw [numberRun.eq_def]
  dsimp only
  rw [if_neg notDigit, if_neg notPoint, if_pos isLetter, if_pos isSign]

theorem numberRun_unsigned (notDigit : ¬ isDigit character = true)
    (notPoint : ¬ (character = '.' && !pointSeen && !exponentSeen) = true)
    (isLetter : ((character = 'e' || character = 'E') && !exponentSeen) = true)
    (unsigned : ∀ next ∈ rest.head?, ¬ (next = '+' || next = '-') = true) :
    numberRun pointSeen exponentSeen (character :: rest) =
      (character :: (numberRun pointSeen true rest).1, (numberRun pointSeen true rest).2) := by
  rw [numberRun.eq_def]
  dsimp only
  rw [if_neg notDigit, if_neg notPoint, if_pos isLetter]
  cases rest with
  | nil => rfl
  | cons next others =>
      dsimp only
      rw [if_neg (unsigned next rfl)]

theorem numberRun_other (notDigit : ¬ isDigit character = true)
    (notPoint : ¬ (character = '.' && !pointSeen && !exponentSeen) = true)
    (notLetter : ¬ ((character = 'e' || character = 'E') && !exponentSeen) = true) :
    numberRun pointSeen exponentSeen (character :: rest) = ([], character :: rest) := by
  rw [numberRun.eq_def]
  dsimp only
  rw [if_neg notDigit, if_neg notPoint, if_neg notLetter]

/-- Nothing is taken of a text that is empty or begins with a blank. -/
theorem numberRun_blank (blank : ∀ next ∈ rest.head?, next = ' ') :
    numberRun pointSeen exponentSeen rest = ([], rest) := by
  cases rest with
  | nil => rfl
  | cons next others =>
      cases blank next rfl
      exact numberRun_other (by decide) (by simp) (by simp)

end Branches

/-- What is taken does not depend on the text after it. -/
theorem numberRun_stops {tail : List Char}
    (taken : numberRun pointSeen exponentSeen characters = (run, after))
    (stops : Resumes after tail) :
    numberRun pointSeen exponentSeen (run ++ tail) = (run, tail) := by
  fun_induction numberRun pointSeen exponentSeen characters generalizing run after with
  | case1 =>
      cases taken
      exact numberRun_blank fun next isNext => (stops next isNext).resolve_right (by simp)
  | case2 _ _ character rest digit otherRun otherAfter otherTaken ih =>
      cases taken
      rw [List.cons_append, numberRun_digit digit, ih otherTaken stops]
  | case3 _ _ character rest notDigit isPoint otherRun otherAfter otherTaken ih =>
      cases taken
      rw [List.cons_append, numberRun_point notDigit isPoint, ih otherTaken stops]
  | case4 _ _ character notDigit notPoint isLetter =>
      cases taken
      have blank : ∀ next ∈ tail.head?, next = ' ' := fun next isNext =>
        (stops next isNext).resolve_right (by simp)
      rw [List.singleton_append, numberRun_unsigned notDigit notPoint isLetter,
        numberRun_blank blank]
      intro next isNext
      rw [blank next isNext]
      decide
  | case5 _ _ character notDigit notPoint isLetter next afterNext isSign otherRun otherAfter
      otherTaken ih =>
      cases taken
      rw [List.cons_append, List.cons_append,
        numberRun_signed notDigit notPoint isLetter isSign, ih otherTaken stops]
  | case6 pointSeen _ character notDigit notPoint isLetter next afterNext notSign otherRun
      otherAfter otherTaken ih =>
      cases taken
      rw [List.cons_append, numberRun_unsigned notDigit notPoint isLetter, ih otherTaken stops]
      -- The text goes on with the same character after the letter as before, or with a blank.
      have whole := append_numberRun pointSeen true (next :: afterNext)
      rw [otherTaken] at whole
      cases otherRun with
      | cons start others =>
          rintro _ ⟨⟩
          rw [(List.cons.inj whole).1]
          exact notSign
      | nil =>
          intro other isOther
          dsimp only [List.nil_append] at whole
          subst whole
          rcases stops other isOther with rfl | same
          · decide
          · cases same
            exact notSign
  | case7 pointSeen exponentSeen character rest notDigit notPoint notLetter =>
      cases taken
      cases tail with
      | nil => rfl
      | cons next others =>
          rcases stops next rfl with rfl | same
          · exact numberRun_blank fun other isOther => (Option.some.inj isOther).symm
          · cases same
            exact numberRun_other notDigit notPoint notLetter

/-- The scanner takes the longest run. -/
theorem isLongestRun_numberRun (characters : List Char) :
    IsLongestRun (numberRun false false characters).1 characters where
  begins := ⟨_, append_numberRun false false characters⟩
  isRun := continuesRun_numberRun false false characters
  longest := fun _ begins isRun => length_le_numberRun begins isRun

/-- A run that begins with a digit or a point. -/
theorem numberRun_starts {character : Char} {rest : List Char}
    (starts : isDigit character = true ∨ character = '.') :
    (numberRun false false (character :: rest)).1 =
      character :: (numberRun (character = '.') false rest).1 := by
  rcases starts with digit | rfl
  · have notPoint : character ≠ '.' := by
      rintro rfl
      cases digit
    rw [numberRun_digit digit, decide_eq_false notPoint]
  · exact congrArg Prod.fst (numberRun_point (by decide) rfl)

end Longest

end Token

end ExprCalculus
