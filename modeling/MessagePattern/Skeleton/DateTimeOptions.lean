/-
# Date-time format options

The record that a date-time skeleton is interpreted into.  As with numbers, every
field may be left unset and `DateTimeFormatOptions.override` lays one record
over another.
-/

import MessagePattern.Keyword

namespace MessagePattern

/-- How a number is written: with as many digits as it needs, or with two. -/
inductive NumericWidth
  | numeric
  | twoDigit
  deriving DecidableEq

/-- How a month is written. -/
inductive MonthWidth
  | numeric
  | short
  | long
  | narrow
  deriving DecidableEq

/-- How wide a name is written. -/
inductive TextWidth
  | short
  | long
  | narrow
  deriving DecidableEq

/-- Which numbers the hours of a day have. -/
inductive HourCycle
  | h11
  | h12
  | h23
  | h24
  deriving DecidableEq

/-- How wide the name of a time zone is written. -/
inductive TimeZoneWidth
  | short
  | long
  deriving DecidableEq

instance : Keyword NumericWidth where
  all := [.numeric, .twoDigit]
  word
    | .numeric => "numeric"
    | .twoDigit => "2-digit"
  find_word a := by cases a <;> decide

instance : Keyword MonthWidth where
  all := [.numeric, .short, .long, .narrow]
  word
    | .numeric => "numeric"
    | .short => "short"
    | .long => "long"
    | .narrow => "narrow"
  find_word a := by cases a <;> decide

instance : Keyword TextWidth where
  all := [.short, .long, .narrow]
  word
    | .short => "short"
    | .long => "long"
    | .narrow => "narrow"
  find_word a := by cases a <;> decide

instance : Keyword HourCycle where
  all := [.h11, .h12, .h23, .h24]
  word
    | .h11 => "h11"
    | .h12 => "h12"
    | .h23 => "h23"
    | .h24 => "h24"
  find_word a := by cases a <;> decide

instance : Keyword TimeZoneWidth where
  all := [.short, .long]
  word
    | .short => "short"
    | .long => "long"
  find_word a := by cases a <;> decide

/-- What a date-time skeleton asks of the formatter. -/
structure DateTimeFormatOptions where
  era : Option TextWidth := none
  year : Option NumericWidth := none
  month : Option MonthWidth := none
  day : Option NumericWidth := none
  weekday : Option TextWidth := none
  hour12 : Option Bool := none
  hourCycle : Option HourCycle := none
  hour : Option NumericWidth := none
  minute : Option NumericWidth := none
  second : Option NumericWidth := none
  timeZoneName : Option TimeZoneWidth := none
  deriving DecidableEq

/-- Lays the settings `b` over the settings `a`: a field keeps the value of `a`
only where `b` leaves it unset. -/
def DateTimeFormatOptions.override (a b : DateTimeFormatOptions) : DateTimeFormatOptions where
  era := b.era.or a.era
  year := b.year.or a.year
  month := b.month.or a.month
  day := b.day.or a.day
  weekday := b.weekday.or a.weekday
  hour12 := b.hour12.or a.hour12
  hourCycle := b.hourCycle.or a.hourCycle
  hour := b.hour.or a.hour
  minute := b.minute.or a.minute
  second := b.second.or a.second
  timeZoneName := b.timeZoneName.or a.timeZoneName

namespace DateTimeFormatOptions

/-- Settings that set nothing change nothing. -/
@[simp] theorem override_empty (a : DateTimeFormatOptions) : a.override {} = a := by
  simp [override]

/-- Laid over nothing, settings are unchanged. -/
@[simp] theorem empty_override (b : DateTimeFormatOptions) : override {} b = b := by
  simp [override]

/-- Laying over is associative: only the topmost setting of each field counts. -/
theorem override_assoc (a b c : DateTimeFormatOptions) :
    (a.override b).override c = a.override (b.override c) := by
  simp [override, Option.or_assoc]

end DateTimeFormatOptions

end MessagePattern
