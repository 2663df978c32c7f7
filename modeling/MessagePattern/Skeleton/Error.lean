/-
# What can be wrong with a skeleton

Each cause is a constructor with the data that its report needs; the wording is
given once, by `SkeletonError.message`.
-/

namespace MessagePattern

/-- Why an option of a number skeleton token is refused. -/
inductive OptionFault
  /-- A scale factor that is no finite number. -/
  | notFinite
  /-- An integer width of no known form. -/
  | notIntegerWidth
  /-- An integer width that bounds the digits from above. -/
  | maximumIntegerDigits
  /-- An integer width that fixes the number of digits. -/
  | exactIntegerDigits
  /-- An option of a fraction stem of no known form. -/
  | notFractionSuffix
  deriving DecidableEq

/-- The wording of a refused option. -/
def OptionFault.message : OptionFault → String
  | .notFinite => "scale must be a finite number"
  | .notIntegerWidth => "expected `*0+`, `#+0+`, or `0+`"
  | .maximumIntegerDigits => "maximum integer digits are not supported"
  | .exactIntegerDigits => "exact integer digits are not supported"
  | .notFractionSuffix => "expected `w` or a significant-digits suffix"

/-- The groups of date-time field letters that no format option expresses. -/
inductive UnsupportedGroup
  | year
  | quarter
  | week
  | day
  | weekday
  | period
  | hour
  | second
  | timeZone
  deriving DecidableEq

/-- The wording of an unsupported field, with a substitute where there is one. -/
def UnsupportedGroup.message : UnsupportedGroup → String
  | .year => "`Y/u/U/r` (year) patterns are not supported, use `y` instead"
  | .quarter => "`q/Q` (quarter) patterns are not supported"
  | .week => "`w/W` (week) patterns are not supported"
  | .day => "`D/F/g` (day) patterns are not supported, use `d` instead"
  | .weekday => "`e..eee`/`c..ccc` (weekday) patterns are not supported, use `E` instead"
  | .period => "`b/B` (period) patterns are not supported, use `a` instead"
  | .hour => "`j/J/C` (hour) patterns are not supported, use `h/H/K/k` instead"
  | .second => "`S/A` (second) patterns are not supported, use `s` instead"
  | .timeZone => "`Z/O/v/V/X/x` (timeZone) patterns are not supported, use `z` instead"

/-- Why a number or date-time skeleton is refused. -/
inductive SkeletonError
  /-- A number skeleton without any token. -/
  | empty
  /-- A token with an empty option, as between two slashes. -/
  | emptyOption (token : String)
  /-- A stem that needs an option and has none. -/
  | missingOption (stem : String)
  /-- A stem that takes one option at most and has several. -/
  | tooManyOptions (stem : String) (count : Nat)
  /-- An option that the stem does not understand. -/
  | invalidOption (stem option : String) (fault : OptionFault)
  /-- A stem that begins like concise scientific notation and goes on wrongly. -/
  | malformedNotation (stem : String)
  /-- A date-time field that no format option expresses. -/
  | unsupportedField (field : Char) (group : UnsupportedGroup)
  /-- A date-time skeleton whose last quoted text does not end. -/
  | unclosedQuote (skeleton : String)
  deriving DecidableEq

namespace SkeletonError

/-- The name of the cause in reports. -/
def kind : SkeletonError → String
  | .empty => "empty"
  | .emptyOption _ => "emptyOption"
  | .missingOption _ => "missingOption"
  | .tooManyOptions _ _ => "tooManyOptions"
  | .invalidOption _ _ _ => "invalidOption"
  | .malformedNotation _ => "malformedNotation"
  | .unsupportedField _ _ => "unsupportedField"
  | .unclosedQuote _ => "unclosedQuote"

/-- The stable code of the cause; two causes of one sort share it. -/
def code : SkeletonError → String
  | .empty => "icu::skeleton::empty"
  | .emptyOption _ => "icu::skeleton::empty_option"
  | .missingOption _ => "icu::skeleton::missing_option"
  | .tooManyOptions _ _ => "icu::skeleton::invalid_option"
  | .invalidOption _ _ _ => "icu::skeleton::invalid_option"
  | .malformedNotation _ => "icu::skeleton::malformed_notation"
  | .unsupportedField _ _ => "icu::skeleton::unsupported_field"
  | .unclosedQuote _ => "icu::skeleton::unclosed_quote"

/-- The wording of the cause. -/
def message : SkeletonError → String
  | .empty => "number skeleton cannot be empty"
  | .emptyOption token => s!"invalid number skeleton token `{token}`: options cannot be empty"
  | .missingOption stem => s!"`{stem}` requires an option"
  | .tooManyOptions stem count =>
    s!"`{stem}` stems only accept a single optional option, found {count}"
  | .invalidOption stem option fault =>
    s!"invalid option `{option}` for `{stem}`: {fault.message}"
  | .malformedNotation stem => s!"malformed concise scientific/engineering notation `{stem}`"
  | .unsupportedField _ group => group.message
  | .unclosedQuote skeleton =>
    s!"unterminated quoted literal in date-time skeleton `{skeleton}`"

end SkeletonError

end MessagePattern
