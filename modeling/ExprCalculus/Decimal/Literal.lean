import ExprCalculus.Decimal.Basic
import ExprCalculus.Text.Blank
import ExprCalculus.Text.Letter

/-!
# Number literals

A literal is an optional sign followed by digits with at most one decimal point
and at least one digit, and an optional exponent.  The words `inf`, `infinity`
and `nan` are literals too, in any case.  Blanks around a literal are dropped,
single underscores may separate digits, and decimal digits of every script
count.  A literal stands for the nearest double.
-/

namespace ExprCalculus

namespace Decimal

def digitsValue (digits : List Char) : Nat :=
  digits.foldl (fun value digit => 10 * value + (digit.toNat - '0'.toNat)) 0

/-- Splits off a leading sign; the flag tells whether it was a minus. -/
def splitSign : List Char → Bool × List Char
  | '-' :: rest => (true, rest)
  | '+' :: rest => (false, rest)
  | rest => (false, rest)

/-- The value of an exponent part, which is empty or a letter `e` with a whole
number after it. -/
def exponentPart? : List Char → Option Int
  | [] => some 0
  | letter :: rest =>
      let (negative, digits) := splitSign rest
      if (letter = 'e' || letter = 'E') && !digits.isEmpty
          && digits.all Text.isDigit then
        let value : Int := digitsValue digits
        some (if negative then -value else value)
      else
        none

/-- The decimal that an unsigned literal of digits, point and exponent denotes. -/
def unsigned? (literal : List Char) : Option Decimal :=
  let whole := literal.takeWhile Text.isDigit
  let afterWhole := literal.dropWhile Text.isDigit
  let (fraction, afterFraction) := match afterWhole with
    | '.' :: rest => (rest.takeWhile Text.isDigit, rest.dropWhile Text.isDigit)
    | rest => ([], rest)
  if whole.isEmpty && fraction.isEmpty then
    none
  else
    (exponentPart? afterFraction).map fun exponent =>
      ⟨digitsValue (whole ++ fraction), exponent - fraction.length⟩

/-- Removes underscores that stand between two digits; any other underscore
makes the literal invalid. -/
def withoutSeparators? (afterDigit : Bool) : List Char → Option (List Char)
  | [] => some []
  | '_' :: digit :: rest =>
      if afterDigit && Text.isDigit digit then
        (withoutSeparators? true rest).map (digit :: ·)
      else
        none
  | character :: rest =>
      if character = '_' then
        none
      else
        (withoutSeparators? (Text.isDigit character) rest).map (character :: ·)

/-- Whether blanks of this kind may surround a literal: all but the four
separators among the control characters. -/
def isMargin (character : Char) : Bool :=
  Text.isBlank character && !(28 ≤ character.toNat && character.toNat < 32)

def trimmed (drop : Char → Bool) (characters : List Char) : List Char :=
  ((characters.dropWhile drop).reverse.dropWhile drop).reverse

def readCharacters? (characters : List Char) : Option Float := do
  let plain := (trimmed isMargin characters).map fun character =>
    (Text.asciiDigit? character).getD character
  let literal ← withoutSeparators? false plain
  let (negative, magnitude) := splitSign literal
  let word := magnitude.map Char.toLower
  if word = "inf".toList || word = "infinity".toList then
    some (if negative then -Binary64.infinity else Binary64.infinity)
  else if word = "nan".toList then
    some Binary64.undefined
  else
    (unsigned? magnitude).map (·.toFloat negative)

def read? (text : String) : Option Float :=
  readCharacters? text.toList

end Decimal

end ExprCalculus
