import ExprCalculus.Text.Range

/-!
# Blanks

The characters that separate tokens: the space separators of Unicode 14, the
line and paragraph separators, and the control characters that move the point
of writing.
-/

namespace ExprCalculus

namespace Text

def blankRanges : List (Nat × Nat) :=
  [(9, 13), (28, 32), (133, 133), (160, 160), (5760, 5760), (8192, 8202), (8232, 8233),
    (8239, 8239), (8287, 8287), (12288, 12288)]

def isBlank (character : Char) : Bool :=
  inRanges blankRanges character

end Text

end ExprCalculus
