/-!
# Grids

A grid holds entries at the positions of a box of any dimension, listed with the
last coordinate running fastest.  Grids of different shapes are combined by
stretching: their shapes are aligned at the last coordinate, and a side of length
one, or a missing one, is repeated as often as the other grid demands.
-/

namespace ExprCalculus

def positions (shape : List Nat) : Nat :=
  shape.foldr (· * ·) 1

/-- Entries at the positions of a box. -/
structure Grid (α : Type) where
  shape : List Nat
  entries : List α
deriving Repr

namespace Grid

variable {α β : Type}

def single (entry : α) : Grid α :=
  ⟨[], [entry]⟩

/-- Several grids of one shape along a new first coordinate. -/
def stack? : List (Grid α) → Option (Grid α)
  | [] => some ⟨[0], []⟩
  | first :: rest =>
      if rest.all (·.shape = first.shape) then
        some ⟨(rest.length + 1) :: first.shape, (first :: rest).flatMap (·.entries)⟩
      else
        none

/-- The common length of two sides, if one can be stretched to the other. -/
def commonSide? (first second : Nat) : Option Nat :=
  if first = second then some first
  else if first = 1 then some second
  else if second = 1 then some first
  else none

/-- A shape with sides of length one in front, up to a given dimension. -/
def padded (dimension : Nat) (shape : List Nat) : List Nat :=
  List.replicate (dimension - shape.length) 1 ++ shape

/-- The smallest shape that two shapes can be stretched to. -/
def commonShape? (first second : List Nat) : Option (List Nat) :=
  let dimension := max first.length second.length
  ((padded dimension first).zip (padded dimension second)).mapM fun (one, other) =>
    commonSide? one other

def commonShapeOf? (shapes : List (List Nat)) : Option (List Nat) :=
  shapes.foldlM commonShape? []

/-- The entries of a box stretched to a box of the same dimension, side by side
from the first. -/
def stretch : List Nat → List Nat → List α → List α
  | source :: sources, target :: targets, entries =>
      let step := positions sources
      let layers := (List.range source).flatMap fun (layer : Nat) =>
        stretch sources targets ((entries.drop (layer * step)).take step)
      if source = target then
        layers
      else
        (List.replicate target layers).flatten
  | _, _, entries => entries

def stretchedTo (shape : List Nat) (grid : Grid α) : List α :=
  stretch (padded shape.length grid.shape) shape grid.entries

def collate (count : Nat) : List (List α) → List (List α)
  | [] => List.replicate count []
  | column :: columns => List.zipWith (· :: ·) column (collate count columns)

def mapM {ε : Type} (image : α → Except ε β) (grid : Grid α) : Except ε (Grid β) := do
  let entries ← grid.entries.mapM image
  return ⟨grid.shape, entries⟩

def zipWith? (combine : α → α → β) (first second : Grid α) : Option (Grid β) := do
  let shape ← commonShape? first.shape second.shape
  return ⟨shape, List.zipWith combine (first.stretchedTo shape) (second.stretchedTo shape)⟩

end Grid

end ExprCalculus
