/-
# Decimal numerals

A numeral is an optional sign, digits with an optional decimal point among or
around them, and an optional power of ten.  Reading one is exact: the digits
make one natural number and the point moves into the exponent.  The words for
infinity and for no number at all are not numerals.
-/

namespace MessagePattern

/-- The number that a run of ASCII digits denotes. -/
def digitsValue (digits : List Char) : Nat :=
  digits.foldl (fun value d => value * 10 + (d.toNat - '0'.toNat)) 0

/-- Takes a sign off the front of a text and says whether it was a minus. -/
def splitSign : List Char → Bool × List Char
  | '+' :: text => (false, text)
  | '-' :: text => (true, text)
  | text => (false, text)

/-- Writes an integer in decimal, with a minus sign if it is negative. -/
def renderInteger (n : Int) : List Char :=
  (if n < 0 then ['-'] else []) ++ Nat.toDigits 10 n.natAbs

/-- The number `digits * 10 ^ exponent`, with a sign of its own so that zero has
two signs as well. -/
structure Numeral where
  negative : Bool
  digits : Nat
  exponent : Int
  deriving DecidableEq

namespace Numeral

/-- Reads a signed run of digits that has to fill the whole text. -/
def integer? (text : List Char) : Option Int :=
  let (negative, digits) := splitSign text
  if digits.isEmpty || !digits.all Char.isDigit then none
  else some (if negative then -(digitsValue digits : Int) else digitsValue digits)

/-- Reads what may follow the digits: nothing, or a power of ten. -/
def power? : List Char → Option Int
  | [] => some 0
  | e :: text => if e == 'e' || e == 'E' then integer? text else none

/-- Splits the digits after a decimal point from the rest, if there is a point. -/
def splitFraction : List Char → List Char × List Char
  | '.' :: text => (text.takeWhile Char.isDigit, text.dropWhile Char.isDigit)
  | text => ([], text)

/-- Reads a numeral that fills the whole text.  At least one digit has to stand
before or after the decimal point. -/
def read? (text : List Char) : Option Numeral :=
  let (negative, text) := splitSign text
  let whole := text.takeWhile Char.isDigit
  let (fraction, text) := splitFraction (text.dropWhile Char.isDigit)
  if whole.isEmpty && fraction.isEmpty then none
  else (power? text).map fun power =>
    ⟨negative, digitsValue (whole ++ fraction), power - fraction.length⟩

end Numeral

end MessagePattern
