import ExprCalculus.Decimal.Shortest

/-!
# Formats of doubles

A format says where positional writing ends and exponent writing begins, how
many digits an exponent has at least, and whether a whole number shows a
fraction.  `Format.standard` is the one used for every double this library
writes.
-/

namespace ExprCalculus

namespace Decimal

/-- The choices made when a decimal is written: from which order on it is positional, from
which one on it has an exponent again and of how many digits at least, and what follows a
whole number in positional form. -/
structure Format where
  leastPositional : Int
  exponentFrom : Int
  exponentDigits : Nat
  wholeSuffix : String

/-- Positional from `10 ^ -4` up to below `10 ^ 16`, exponents with a sign and at
least two digits, and `.0` after a whole number. -/
def Format.standard : Format where
  leastPositional := -4
  exponentFrom := 16
  exponentDigits := 2
  wholeSuffix := ".0"

def padLeft (length : Nat) (digits : List Char) : List Char :=
  List.replicate (length - digits.length) '0' ++ digits

/-- The digits of a decimal around its point: `order` is the exponent of the
leading digit. -/
def positional (wholeSuffix : String) (digits : List Char) (order : Int) : String :=
  if order < 0 then
    "0." ++ String.ofList (List.replicate (-order - 1).toNat '0' ++ digits)
  else
    let places := order.toNat + 1
    let whole := digits.take places ++ List.replicate (places - digits.length) '0'
    let fraction := digits.drop places
    if fraction.isEmpty then
      String.ofList whole ++ wholeSuffix
    else
      String.ofList whole ++ "." ++ String.ofList fraction

def scientific (exponentDigits : Nat) (digits : List Char) (order : Int) : String :=
  let mantissa := match digits with
    | [] => []
    | [digit] => [digit]
    | digit :: rest => digit :: '.' :: rest
  let sign := if order < 0 then "e-" else "e+"
  String.ofList mantissa ++ sign ++
    String.ofList (padLeft exponentDigits (Nat.toDigits 10 order.natAbs))

def Format.write (style : Format) (decimal : Decimal) : String :=
  let digits := Nat.toDigits 10 decimal.coefficient
  let order := decimal.exponent + (digits.length - 1 : Nat)
  if style.leastPositional ≤ order && order < style.exponentFrom then
    positional style.wholeSuffix digits order
  else
    scientific style.exponentDigits digits order

/-- Writes a double with the fewest digits that read back as the same double. -/
def Format.writeFloat (style : Format) (value : Float) : String :=
  if value.isNaN then
    "nan"
  else
    let magnitude := if value.isInf then "inf" else style.write (shortest value)
    if Binary64.signBit value then "-" ++ magnitude else magnitude

def text (value : Float) : String :=
  Format.standard.writeFloat value

end Decimal

end ExprCalculus
