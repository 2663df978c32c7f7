/-
# Trees, skeletons and options from JSON

Every reader accepts what the writer of the same type produces, and more: fields
that it does not know are ignored, and styles and format options may be missing
or null.  Integers have to be in the range of their field.

A tree is read with a bound on its depth, which `elementsOfJson?` takes from the
nesting of the value.
-/

import MessagePattern.Json.Encode

namespace MessagePattern

open Json

/-- Reads a position. -/
def Position.ofJson? (j : Json) : Option Position := do
  let fields ← j.fields?
  let offset ← required "offset" (nat? maxWord64) fields
  let line ← required "line" (nat? maxWord64) fields
  let column ← required "column" (nat? maxWord64) fields
  return ⟨offset, line, column⟩

/-- Reads a location. -/
def Location.ofJson? (j : Json) : Option Location := do
  let fields ← j.fields?
  let start ← required "start" Position.ofJson? fields
  let stop ← required "end" Position.ofJson? fields
  return ⟨start, stop⟩

/-- Reads a token. -/
def NumberToken.ofJson? (j : Json) : Option NumberToken := do
  let fields ← j.fields?
  let stem ← required "stem" string? fields
  let options ← required "options" (list? string?) fields
  return ⟨stem, options⟩

/-- Reads a list of tokens. -/
def tokensOfJson? (j : Json) : Option (List NumberToken) := j.list? NumberToken.ofJson?

/-- Reads grouping: a truth value or the name of a mode. -/
def Grouping.ofJson? : Json → Option Grouping
  | .bool on => some (.enabled on)
  | j => j.keyword?.map .mode

/-- Reads number format options. -/
def NumberFormatOptions.ofJson? (j : Json) : Option NumberFormatOptions := do
  let fields ← j.fields?
  let style ← unsettable "style" keyword? fields
  let currency ← unsettable "currency" string? fields
  let currencyDisplay ← unsettable "currencyDisplay" keyword? fields
  let currencySign ← unsettable "currencySign" keyword? fields
  let unit ← unsettable "unit" string? fields
  let unitDisplay ← unsettable "unitDisplay" keyword? fields
  let useGrouping ← unsettable "useGrouping" Grouping.ofJson? fields
  let numberNotation ← unsettable "notation" keyword? fields
  let compactDisplay ← unsettable "compactDisplay" keyword? fields
  let signDisplay ← unsettable "signDisplay" keyword? fields
  let scale ← unsettable "scale" float? fields
  let minimumIntegerDigits ← unsettable "minimumIntegerDigits" (nat? maxWord32) fields
  let minimumFractionDigits ← unsettable "minimumFractionDigits" (nat? maxWord32) fields
  let maximumFractionDigits ← unsettable "maximumFractionDigits" (nat? maxWord32) fields
  let minimumSignificantDigits ← unsettable "minimumSignificantDigits" (nat? maxWord32) fields
  let maximumSignificantDigits ← unsettable "maximumSignificantDigits" (nat? maxWord32) fields
  let roundingPriority ← unsettable "roundingPriority" keyword? fields
  let roundingMode ← unsettable "roundingMode" keyword? fields
  let trailingZeroDisplay ← unsettable "trailingZeroDisplay" keyword? fields
  return {
    style, currency, currencyDisplay, currencySign, unit, unitDisplay, useGrouping,
    numberNotation, compactDisplay, signDisplay, scale, minimumIntegerDigits,
    minimumFractionDigits, maximumFractionDigits, minimumSignificantDigits,
    maximumSignificantDigits, roundingPriority, roundingMode, trailingZeroDisplay }

/-- Reads date-time format options. -/
def DateTimeFormatOptions.ofJson? (j : Json) : Option DateTimeFormatOptions := do
  let fields ← j.fields?
  let era ← unsettable "era" keyword? fields
  let year ← unsettable "year" keyword? fields
  let month ← unsettable "month" keyword? fields
  let day ← unsettable "day" keyword? fields
  let weekday ← unsettable "weekday" keyword? fields
  let hour12 ← unsettable "hour12" bool? fields
  let hourCycle ← unsettable "hourCycle" keyword? fields
  let hour ← unsettable "hour" keyword? fields
  let minute ← unsettable "minute" keyword? fields
  let second ← unsettable "second" keyword? fields
  let timeZoneName ← unsettable "timeZoneName" keyword? fields
  return {
    era, year, month, day, weekday, hour12, hourCycle, hour, minute, second, timeZoneName }

/-- Reads a number skeleton. -/
def NumberSkeleton.ofJson? (j : Json) : Option NumberSkeleton := do
  let fields ← j.fields?
  let tokens ← required "tokens" tokensOfJson? fields
  let location ← required "location" Location.ofJson? fields
  let parsedOptions ← unsettable "parsedOptions" NumberFormatOptions.ofJson? fields
  return ⟨tokens, location, parsedOptions⟩

/-- Reads a date-time skeleton. -/
def DateTimeSkeleton.ofJson? (j : Json) : Option DateTimeSkeleton := do
  let fields ← j.fields?
  let pattern ← required "pattern" string? fields
  let location ← required "location" Location.ofJson? fields
  let parsedOptions ← unsettable "parsedOptions" DateTimeFormatOptions.ofJson? fields
  return ⟨pattern, location, parsedOptions⟩

/-- Reads a style: a text or a skeleton. -/
def Style.ofJson? {σ : Type} (read : Json → Option σ) : Json → Option (Style σ)
  | .str name => some (.text name)
  | j => (read j).map .skeleton

/-- Enters a branch.  A selector that is known keeps its place and takes the new
text. -/
def Branch.insert (branches : List (Branch Element)) (b : Branch Element) :
    List (Branch Element) :=
  if branches.any (·.selector == b.selector) then
    branches.map fun known => if known.selector == b.selector then b else known
  else branches ++ [b]

/-- Reads a branch from its pair, the texts of branches by `inner`. -/
def Branch.ofJson? (inner : Json → Option (List Element)) : Json → Option (Branch Element)
  | .arr [.str selector, j] => do
    let fields ← j.fields?
    let value ← required "value" inner fields
    let location ← required "location" Location.ofJson? fields
    return ⟨selector, value, location⟩
  | _ => none

/-- Reads the branches of a selector. -/
def branchesOfJson? (inner : Json → Option (List Element)) (j : Json) :
    Option (List (Branch Element)) :=
  (j.list? (Branch.ofJson? inner)).map fun branches => branches.foldl Branch.insert []

/-- Reads an element, the lists of elements in it by `inner`. -/
def Element.ofJson? (inner : Json → Option (List Element)) (j : Json) : Option Element := do
  let fields ← j.fields?
  let type ← required "type" keyword? fields
  let location ← required "location" Location.ofJson? fields
  match type with
  | ElementType.literal =>
    let text ← required "text" string? fields
    return .literal text location
  | .argument =>
    let name ← required "name" string? fields
    return .argument name location
  | .number =>
    let name ← required "name" string? fields
    let style ← unsettable "style" (Style.ofJson? NumberSkeleton.ofJson?) fields
    return .number name style location
  | .date =>
    let name ← required "name" string? fields
    let style ← unsettable "style" (Style.ofJson? DateTimeSkeleton.ofJson?) fields
    return .dateTime .date name style location
  | .time =>
    let name ← required "name" string? fields
    let style ← unsettable "style" (Style.ofJson? DateTimeSkeleton.ofJson?) fields
    return .dateTime .time name style location
  | .plural =>
    let name ← required "name" string? fields
    let branches ← required "options" (branchesOfJson? inner) fields
    let offset ← required "offset" (int? (-0x8000000000000000) 0x7FFFFFFFFFFFFFFF) fields
    let pluralType ← required "pluralType" keyword? fields
    return .selector (.plural pluralType offset) name branches location
  | .select =>
    let name ← required "name" string? fields
    let branches ← required "options" (branchesOfJson? inner) fields
    return .selector .select name branches location
  | .pound => return .pound location
  | .tag =>
    let name ← required "name" string? fields
    let children ← required "children" inner fields
    return .tag name children location

/-- Reads a list of elements that are nested less than `bound` deep. -/
def elementsWithin? : (bound : Nat) → Json → Option (List Element)
  | 0, _ => none
  | bound + 1, j => j.list? (Element.ofJson? (elementsWithin? bound))

/-- Reads a list of elements. -/
def elementsOfJson? (j : Json) : Option (List Element) := elementsWithin? j.nesting j

/-- Reads the options of reading.  What is missing has its default; null is not
the same as missing. -/
def ParseOptions.ofJson? (j : Json) : Option ParseOptions := do
  let fields ← j.fields?
  let defaults : ParseOptions := {}
  let ignoreTag ← defaulting "ignoreTag" bool? defaults.ignoreTag fields
  let requiresOtherClause ←
    defaulting "requiresOtherClause" bool? defaults.requiresOtherClause fields
  let shouldParseSkeletons ←
    defaulting "shouldParseSkeletons" bool? defaults.shouldParseSkeletons fields
  let maxNestingDepth ←
    defaulting "maxNestingDepth" (nat? maxWord64) defaults.maxNestingDepth fields
  return { ignoreTag, requiresOtherClause, shouldParseSkeletons, maxNestingDepth }

end MessagePattern
