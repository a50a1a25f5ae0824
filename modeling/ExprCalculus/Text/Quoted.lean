import ExprCalculus.Text.Printable

/-!
# Quoted texts

A text is quoted with apostrophes, or with quotation marks when it holds an
apostrophe and no quotation mark.  Inside, the backslash and the mark in use are
escaped by a backslash, and characters that cannot be shown are written by their
code.
-/

namespace ExprCalculus

namespace Text

/-- The code of a character in at least `width` hexadecimal digits. -/
def hexadecimal (width code : Nat) : List Char :=
  let digits := Nat.toDigits 16 code
  List.replicate (width - digits.length) '0' ++ digits

/-- A character as it stands between two of the given marks. -/
def escaped (mark character : Char) : List Char :=
  if character = mark || character = '\\' then
    ['\\', character]
  else if character = '\n' then
    ['\\', 'n']
  else if character = '\r' then
    ['\\', 'r']
  else if character = '\t' then
    ['\\', 't']
  else if isPrintable character then
    [character]
  else if character.toNat < 0x100 then
    '\\' :: 'x' :: hexadecimal 2 character.toNat
  else if character.toNat < 0x10000 then
    '\\' :: 'u' :: hexadecimal 4 character.toNat
  else
    '\\' :: 'U' :: hexadecimal 8 character.toNat

def quoted (text : String) : String :=
  let characters := text.toList
  let mark := if characters.contains '\'' && !characters.contains '"' then '"' else '\''
  String.ofList (mark :: characters.flatMap (escaped mark) ++ [mark])

end Text

end ExprCalculus
