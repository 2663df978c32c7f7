/-
# Decimal integers in a message

Plural offsets and exact selectors are integers with an optional sign.  They have
to be safe: no greater in magnitude than the largest integer up to which
binary64 numbers represent every one.
-/

import MessagePattern.Reader.Basic
import MessagePattern.Decimal.Numeral

namespace MessagePattern

/-- The largest safe integer, `2 ^ 53 - 1`. -/
def maxSafeInteger : Nat := 9007199254740991

/-- Reads an integer.  Fails with `absent` if there is no digit and with
`excessive` if the number is not safe; in each case sign and digits are behind
the cursor. -/
def readInteger (absent excessive : ErrorKind) (c : Cursor) :
    Except Failure (Int × Cursor) :=
  let (negative, unsigned) := splitSign c.rest
  let digits := unsigned.takeWhile Char.isDigit
  let stop := c.advance (c.rest.length - unsigned.length + digits.length)
  let value := digitsValue digits
  if digits.isEmpty then stop.fail absent (stop.since c.position)
  else if maxSafeInteger < value then stop.fail excessive (stop.since c.position)
  else .ok (if negative then -(value : Int) else value, stop)

end MessagePattern
