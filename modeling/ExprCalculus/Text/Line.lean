/-!
# Lines

A text is cut into lines at line feeds, carriage returns and the other characters
that begin a new line or page; a carriage return and a line feed after it count
as one break.
-/

namespace ExprCalculus

namespace Text

def endsLine (character : Char) : Bool :=
  let code := character.toNat
  (10 ≤ code && code ≤ 13) || (28 ≤ code && code ≤ 30) || code = 0x85
    || code = 0x2028 || code = 0x2029

/-- The lines of a list of characters, given the current line in reverse. -/
def linesFrom (current : List Char) : List Char → List String
  | [] => [String.ofList current.reverse]
  | '\r' :: '\n' :: rest => String.ofList current.reverse :: linesFrom [] rest
  | character :: rest =>
      if endsLine character then
        String.ofList current.reverse :: linesFrom [] rest
      else
        linesFrom (character :: current) rest

def lines (text : String) : List String :=
  linesFrom [] text.toList

end Text

end ExprCalculus
