/-!
# Ranges of characters

A class of characters is given by the ranges of code points that it covers, in
ascending order.
-/

namespace ExprCalculus

namespace Text

/-- Whether one of the ranges, ends included, covers the character. -/
def inRanges (ranges : List (Nat × Nat)) (character : Char) : Bool :=
  ranges.any fun (first, last) =>
    first ≤ character.toNat && character.toNat ≤ last

end Text

end ExprCalculus
