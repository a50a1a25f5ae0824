/-!
# Case runs

A map from characters to characters is given by runs: characters at equal distances
that map to characters at the same distances.
-/

namespace ExprCalculus

namespace Text

/-- The characters from `first` to `last` in steps of `step`, which map to the
characters from `image` on in the same steps. -/
structure CaseRun where
  first : Nat
  last : Nat
  step : Nat
  image : Nat

def CaseRun.apply (runs : List CaseRun) (character : Char) : Char :=
  let code := character.toNat
  let run := runs.find? fun run =>
    run.first ≤ code && code ≤ run.last && (code - run.first) % run.step = 0
  run.elim character fun run => Char.ofNat (code - run.first + run.image)

end Text

end ExprCalculus
