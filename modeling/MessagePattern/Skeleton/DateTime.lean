/-
# Date-time skeletons

A date-time skeleton is a pattern of field letters such as `yMMMd`.  Text between
apostrophes is literal, and two apostrophes in a row are one literal apostrophe
inside and outside such text.  `fields` cuts the unquoted letters into fields:
from a run of one letter it takes fields of the letter's greatest width until no
more than that is left, which is the last field.

`interpret` goes through the fields from left to right, and
`DateTimeField.applyTo` says what a field does to the options that the fields in
front of it have left.
-/

import MessagePattern.Text.Position
import MessagePattern.Skeleton.Error
import MessagePattern.Skeleton.DateTimeOptions

namespace MessagePattern

/-- A date or time style given as a skeleton. -/
structure DateTimeSkeleton where
  pattern : String
  location : Location
  /-- What the pattern means, if the reader was asked to find out. -/
  parsedOptions : Option DateTimeFormatOptions
  deriving DecidableEq

/-- A run of one field letter, such as `MMM`. -/
structure DateTimeField where
  letter : Char
  width : Nat
  deriving DecidableEq

namespace DateTimeSkeleton

/-- The greatest width of the fields that may be of any width.  No run of
letters is as long as that. -/
def unlimitedWidth : Nat := 0xFFFFFFFFFFFFFFFF

/-- The greatest width of a field, by its letter.  Characters that are no field
letter have none. -/
def maxWidth? (letter : Char) : Option Nat :=
  if letter ∈ ['G', 'U', 'q', 'Q', 'M', 'L', 'a', 'b', 'B'] then some 5
  else if letter ∈ ['y', 'Y', 'u', 'r', 'g', 'S', 'A', 'j', 'J', 'C'] then some unlimitedWidth
  else if letter ∈ ['E', 'e', 'c'] then some 6
  else if letter ∈ ['d', 'w', 'h', 'H', 'k', 'K', 'm', 's'] then some 2
  else if letter = 'D' then some 3
  else if letter ∈ ['F', 'W'] then some 1
  else if letter ∈ ['z', 'Z', 'O', 'v', 'V', 'x', 'X'] then some 4
  else none

/-- A character as field letter, if it is one. -/
def fieldLetter? (c : Char) : Option Char :=
  if (maxWidth? c).isSome then some c else none

/-- Goes over a pattern and marks what each step read: the letter if it was an
unquoted field letter, nothing otherwise.  Fails if the pattern ends inside
quoted text. -/
def marks? : (quoted : Bool) → List Char → Option (List (Option Char))
  | quoted, [] => if quoted then none else some []
  | quoted, '\'' :: '\'' :: text => (none :: ·) <$> marks? quoted text
  | quoted, '\'' :: text => (none :: ·) <$> marks? (!quoted) text
  | quoted, c :: text =>
    ((if quoted then none else fieldLetter? c) :: ·) <$> marks? quoted text

/-- Collects neighbouring equal letters into runs. -/
def letterRuns : List (Option Char) → List (Char × Nat)
  | [] => []
  | none :: marks => letterRuns marks
  | some c :: marks =>
    match marks.head?, letterRuns marks with
    | some (some d), (e, n) :: runs =>
      if c = d then (c, n + 1) :: runs else (c, 1) :: (e, n) :: runs
    | _, runs => (c, 1) :: runs

/-- Takes fields of at most the greatest width off a run until nothing is left of it.
No greatest width is zero, so each turn takes a letter at least, and `turns` may be
the length of the run. -/
def cutRun (letter : Char) (most : Nat) : (turns remaining : Nat) → List DateTimeField
  | 0, _ => []
  | turns + 1, remaining =>
    if remaining = 0 then []
    else
      let width := min remaining most
      ⟨letter, width⟩ :: cutRun letter most turns (remaining - width)

/-- Cuts a run into fields. -/
def fieldsOfRun (letter : Char) (length : Nat) : List DateTimeField :=
  match maxWidth? letter with
  | none => []
  | some most => cutRun letter most length length

/-- The fields of a pattern, in order. -/
def fields (pattern : List Char) : Except SkeletonError (List DateTimeField) :=
  match marks? false pattern with
  | none => .error (.unclosedQuote (String.ofList pattern))
  | some marks => .ok ((letterRuns marks).flatMap fun (letter, n) => fieldsOfRun letter n)

end DateTimeSkeleton

namespace DateTimeField

/-- Two letters ask for two digits, any other number for as many as needed. -/
def numericWidth (width : Nat) : NumericWidth :=
  if width = 2 then .twoDigit else .numeric

/-- Four letters ask for the full name, five for the narrow one and any other
number for the short one. -/
def textWidth (width : Nat) : TextWidth :=
  if width = 4 then .long else if width = 5 then .narrow else .short

/-- Months are numbers up to two letters and names from three on. -/
def monthWidth (width : Nat) : MonthWidth :=
  if width ≤ 2 then .numeric else if width = 3 then .short
  else if width = 4 then .long else .narrow

/-- Four letters or more ask for the full name of a time zone. -/
def timeZoneWidth (width : Nat) : TimeZoneWidth :=
  if width < 4 then .short else .long

/-- What a field makes of the options that are set in front of it.  A letter that no
option expresses is refused with the group that it belongs to. -/
def applyTo (f : DateTimeField) (r : DateTimeFormatOptions) :
    Except SkeletonError DateTimeFormatOptions :=
  let refuse (group : UnsupportedGroup) : Except SkeletonError DateTimeFormatOptions :=
    .error (.unsupportedField f.letter group)
  match f.letter with
  | 'G' => .ok { r with era := some (textWidth f.width) }
  | 'y' => .ok { r with year := some (numericWidth f.width) }
  | 'Y' | 'u' | 'U' | 'r' => refuse .year
  | 'q' | 'Q' => refuse .quarter
  | 'M' | 'L' => .ok { r with month := some (monthWidth f.width) }
  | 'w' | 'W' => refuse .week
  | 'd' => .ok { r with day := some (numericWidth f.width) }
  | 'D' | 'F' | 'g' => refuse .day
  | 'E' => .ok { r with weekday := some (textWidth f.width) }
  | 'e' | 'c' =>
    if f.width < 4 then refuse .weekday
    else .ok { r with weekday := some (textWidth f.width) }
  | 'a' => .ok { r with hour12 := some true }
  | 'b' | 'B' => refuse .period
  | 'h' => .ok { r with hourCycle := some .h12, hour := some (numericWidth f.width) }
  | 'H' => .ok { r with hourCycle := some .h23, hour := some (numericWidth f.width) }
  | 'K' => .ok { r with hourCycle := some .h11, hour := some (numericWidth f.width) }
  | 'k' => .ok { r with hourCycle := some .h24, hour := some (numericWidth f.width) }
  | 'j' | 'J' | 'C' => refuse .hour
  | 'm' => .ok { r with minute := some (numericWidth f.width) }
  | 's' => .ok { r with second := some (numericWidth f.width) }
  | 'S' | 'A' => refuse .second
  | 'z' => .ok { r with timeZoneName := some (timeZoneWidth f.width) }
  | 'Z' | 'O' | 'v' | 'V' | 'X' | 'x' => refuse .timeZone
  | _ => .ok r

end DateTimeField

namespace DateTimeSkeleton

/-- The options that a pattern sets, each field going on from those in front of it; the
first field that is refused decides the error. -/
def interpret (pattern : List Char) : Except SkeletonError DateTimeFormatOptions := do
  (← fields pattern).foldlM (fun r f => f.applyTo r) {}

end DateTimeSkeleton

end MessagePattern
