/-
# Trees, skeletons and errors as JSON

Format options leave out what is unset; the other optional values are written as
null.  The branches of a selector are a list of pairs, since their order counts.
-/

import MessagePattern.Json.Value
import MessagePattern.Reader.Basic
import MessagePattern.Element

namespace MessagePattern

open Json

/-- A position as JSON. -/
def Position.toJson (p : Position) : Json :=
  .obj [("offset", .int p.offset), ("line", .int p.line), ("column", .int p.column)]

/-- A location as JSON. -/
def Location.toJson (l : Location) : Json :=
  .obj [("start", l.start.toJson), ("end", l.stop.toJson)]

/-- A token as JSON. -/
def NumberToken.toJson (t : NumberToken) : Json :=
  .obj [("stem", .str t.stem), ("options", .arr (t.options.map .str))]

/-- Grouping as JSON: a truth value or the name of a mode. -/
def Grouping.toJson : Grouping → Json
  | .enabled on => .bool on
  | .mode m => ofKeyword m

/-- Number format options as JSON. -/
def NumberFormatOptions.toJson (o : NumberFormatOptions) : Json :=
  record [
    ("style", o.style.map ofKeyword),
    ("currency", o.currency.map .str),
    ("currencyDisplay", o.currencyDisplay.map ofKeyword),
    ("currencySign", o.currencySign.map ofKeyword),
    ("unit", o.unit.map .str),
    ("unitDisplay", o.unitDisplay.map ofKeyword),
    ("useGrouping", o.useGrouping.map Grouping.toJson),
    ("notation", o.numberNotation.map ofKeyword),
    ("compactDisplay", o.compactDisplay.map ofKeyword),
    ("signDisplay", o.signDisplay.map ofKeyword),
    ("scale", o.scale.map ofFloat),
    ("minimumIntegerDigits", o.minimumIntegerDigits.map fun (n : Nat) => .int n),
    ("minimumFractionDigits", o.minimumFractionDigits.map fun (n : Nat) => .int n),
    ("maximumFractionDigits", o.maximumFractionDigits.map fun (n : Nat) => .int n),
    ("minimumSignificantDigits", o.minimumSignificantDigits.map fun (n : Nat) => .int n),
    ("maximumSignificantDigits", o.maximumSignificantDigits.map fun (n : Nat) => .int n),
    ("roundingPriority", o.roundingPriority.map ofKeyword),
    ("roundingMode", o.roundingMode.map ofKeyword),
    ("trailingZeroDisplay", o.trailingZeroDisplay.map ofKeyword)]

/-- Date-time format options as JSON. -/
def DateTimeFormatOptions.toJson (o : DateTimeFormatOptions) : Json :=
  record [
    ("era", o.era.map ofKeyword),
    ("year", o.year.map ofKeyword),
    ("month", o.month.map ofKeyword),
    ("day", o.day.map ofKeyword),
    ("weekday", o.weekday.map ofKeyword),
    ("hour12", o.hour12.map .bool),
    ("hourCycle", o.hourCycle.map ofKeyword),
    ("hour", o.hour.map ofKeyword),
    ("minute", o.minute.map ofKeyword),
    ("second", o.second.map ofKeyword),
    ("timeZoneName", o.timeZoneName.map ofKeyword)]

/-- A number skeleton as JSON. -/
def NumberSkeleton.toJson (k : NumberSkeleton) : Json :=
  .obj [
    ("tokens", .arr (k.tokens.map NumberToken.toJson)),
    ("location", k.location.toJson),
    ("parsedOptions", optional NumberFormatOptions.toJson k.parsedOptions)]

/-- A date-time skeleton as JSON. -/
def DateTimeSkeleton.toJson (k : DateTimeSkeleton) : Json :=
  .obj [
    ("pattern", .str k.pattern),
    ("location", k.location.toJson),
    ("parsedOptions", optional DateTimeFormatOptions.toJson k.parsedOptions)]

/-- A style as JSON: a text or a skeleton. -/
def Style.toJson {σ : Type} (write : σ → Json) : Style σ → Json
  | .text name => .str name
  | .skeleton k => write k

mutual

/-- An element as JSON. -/
def Element.toJson : Element → Json
  | .literal text location =>
    .obj [("type", .str "literal"), ("text", .str text), ("location", location.toJson)]
  | .argument name location =>
    .obj [("type", .str "argument"), ("name", .str name), ("location", location.toJson)]
  | .number name style location =>
    .obj [
      ("type", .str "number"),
      ("name", .str name),
      ("style", optional (Style.toJson NumberSkeleton.toJson) style),
      ("location", location.toJson)]
  | .dateTime kind name style location =>
    .obj [
      ("type", .str kind.keyword),
      ("name", .str name),
      ("style", optional (Style.toJson DateTimeSkeleton.toJson) style),
      ("location", location.toJson)]
  | .selector (.plural type offset) name branches location =>
    .obj [
      ("type", .str "plural"),
      ("name", .str name),
      ("options", .arr (branchesToJson branches)),
      ("offset", .int offset),
      ("pluralType", ofKeyword type),
      ("location", location.toJson)]
  | .selector .select name branches location =>
    .obj [
      ("type", .str "select"),
      ("name", .str name),
      ("options", .arr (branchesToJson branches)),
      ("location", location.toJson)]
  | .pound location => .obj [("type", .str "pound"), ("location", location.toJson)]
  | .tag name children location =>
    .obj [
      ("type", .str "tag"),
      ("name", .str name),
      ("children", .arr (itemsToJson children)),
      ("location", location.toJson)]

/-- Elements as items of a JSON array. -/
def itemsToJson : List Element → List Json
  | [] => []
  | e :: es => e.toJson :: itemsToJson es

/-- Branches as items of a JSON array, each a pair of selector and text.  They are not written as
the fields of an object, since their order counts and that of fields need not be kept. -/
def branchesToJson : List (Branch Element) → List Json
  | [] => []
  | ⟨selector, value, location⟩ :: branches =>
    .arr [.str selector,
      .obj [("value", .arr (itemsToJson value)), ("location", location.toJson)]]
      :: branchesToJson branches

end

/-- A list of elements as JSON. -/
def elementsToJson (elements : List Element) : Json := .arr (itemsToJson elements)

/-- A skeleton error as JSON: its kind and what belongs to it. -/
def SkeletonError.toJson (e : SkeletonError) : Json :=
  .obj (("kind", .str e.kind) ::
    match e with
    | .empty => []
    | .emptyOption token => [("token", .str token)]
    | .missingOption stem => [("stem", .str stem)]
    | .tooManyOptions stem count => [("stem", .str stem), ("count", .int count)]
    | .invalidOption stem option fault =>
      [("stem", .str stem), ("option", .str option), ("reason", .str fault.message)]
    | .malformedNotation stem => [("stem", .str stem)]
    | .unsupportedField field group =>
      [("field", .str (String.singleton field)), ("message", .str group.message)]
    | .unclosedQuote skeleton => [("skeleton", .str skeleton)])

/-- The cause of an error as JSON. -/
def ErrorCause.toJson : ErrorCause → Json
  | .skeleton error => .obj [("type", .str "skeleton"), ("error", error.toJson)]
  | .panic reason => .obj [("type", .str "panic"), ("error", .str reason)]

/-- A parse error as JSON. -/
def ParseError.toJson (e : ParseError) : Json :=
  .obj [
    ("kind", .str e.kind.name),
    ("message", .str e.message),
    ("location", e.location.toJson),
    ("cause", optional ErrorCause.toJson e.cause)]

/-- Reading options as JSON. -/
def ParseOptions.toJson (o : ParseOptions) : Json :=
  .obj [
    ("ignoreTag", .bool o.ignoreTag),
    ("requiresOtherClause", .bool o.requiresOtherClause),
    ("shouldParseSkeletons", .bool o.shouldParseSkeletons),
    ("maxNestingDepth", .int o.maxNestingDepth)]

end MessagePattern
