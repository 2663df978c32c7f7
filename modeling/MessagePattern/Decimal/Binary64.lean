/-
# Binary64 words

A binary64 number is kept as its 64-bit word, so that two numbers are equal
exactly when they are the same datum and a zero keeps its sign.  A decimal
numeral is read by rounding the exact quotient to the nearest word, a tie going
to the even one; all arithmetic is on natural numbers.

No arithmetic on words is supplied: a message only carries such a number from
its skeleton to the formatter.
-/

import MessagePattern.Decimal.Numeral

namespace MessagePattern

/-- The word of a binary64 number. -/
structure Binary64 where
  bits : UInt64
  deriving DecidableEq

namespace Binary64

/-- The word of positive infinity: the words below it are the finite numbers
without a sign, in increasing order. -/
def infinityBits : Nat := 0x7FF0000000000000

/-- The bit that makes a number negative. -/
def signBit : Nat := 0x8000000000000000

/-- Whether the word denotes a finite number. -/
def isFinite (x : Binary64) : Bool := x.bits.toNat % signBit < infinityBits

/-- The quotient rounded to the nearest natural number, a half to the even one. -/
def roundQuotient (num den : Nat) : Nat :=
  let quotient := num / den
  let twice := 2 * (num % den)
  if twice < den then quotient
  else if den < twice then quotient + 1
  else quotient + quotient % 2

/-- Whether `2 ^ e ≤ num / den`. -/
def atLeastPower (num den : Nat) (e : Int) : Bool :=
  den * Nat.pow 2 e.toNat ≤ num * Nat.pow 2 (-e).toNat

/-- The word of the positive number `num / den` without regard to the largest
finite number.  The unit in the last place is `2 ^ unit`, at least `2 ^ -1074`;
a significand that rounds up to the next power of two carries into the
exponent field by plain addition. -/
def nearestBits (num den : Nat) : Nat :=
  let guess : Int := (num.log2 : Int) - den.log2
  let exponent := if atLeastPower num den guess then guess else guess - 1
  let unit := max (exponent - 52) (-1074)
  (unit + 1074).toNat * 0x10000000000000
    + roundQuotient (num * Nat.pow 2 (-unit).toNat) (den * Nat.pow 2 unit.toNat)

/-- The word nearest to `digits * 10 ^ exponent`.  A number with more than 309
digits before the point is beyond the largest finite one, and one with more than
323 zeros after the point is nearer to zero than to any other word; in between
the quotient is small enough to be computed. -/
def magnitudeBits (digits : Nat) (exponent : Int) : Nat :=
  let size := (Nat.toDigits 10 digits).length + exponent
  if digits = 0 ∨ size < -323 then 0
  else if 309 < size then infinityBits
  else min infinityBits
    (nearestBits (digits * Nat.pow 10 exponent.toNat) (Nat.pow 10 (-exponent).toNat))

/-- The number nearest to a numeral, which may be an infinity. -/
def ofNumeral (n : Numeral) : Binary64 :=
  ⟨UInt64.ofNat (magnitudeBits n.digits n.exponent + if n.negative then signBit else 0)⟩

/-- The number nearest to an integer. -/
def ofInt (n : Int) : Binary64 := ofNumeral ⟨decide (n < 0), n.natAbs, 0⟩

/-- Reads a decimal numeral as a finite number. -/
def read? (text : List Char) : Option Binary64 :=
  ((Numeral.read? text).map ofNumeral).filter isFinite

end Binary64

end MessagePattern
