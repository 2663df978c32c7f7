/-
# Arguments

An argument is a name in braces, with an optional type behind a comma and what
the type asks for behind it.
-/

import MessagePattern.Reader.Style
import MessagePattern.Reader.Selector

namespace MessagePattern

/-- The types that an argument may have. -/
inductive ArgumentType
  | number
  | dateTime (kind : DateTimeKind)
  | selector (plural : Option PluralType)
  deriving DecidableEq

/-- The words for argument types. -/
def argumentTypes : List (String × ArgumentType) :=
  [("number", .number), ("date", .dateTime .date), ("time", .dateTime .time),
    ("plural", .selector (some .cardinal)), ("selectordinal", .selector (some .ordinal)),
    ("select", .selector none)]

/-- Reads the style of a number, date or time argument, if there is a comma. -/
def readOptionalStyle (c : Cursor) :
    Except Failure (Option (List Char × Location) × Cursor) :=
  let c := c.skipSpace
  match c.skip? [','] with
  | none => .ok (none, c)
  | some c => do
    let (style, c) ← readStyle c.skipSpace
    .ok (some style, c)

/-- Reads a number argument from behind its type on. -/
def readNumber (o : ParseOptions) (name : String) (opening : Position) (c : Cursor) :
    Except Failure (Element × Cursor) := do
  let (style?, c) ← readOptionalStyle c
  let c ← c.closeBrace opening
  let location := c.since opening
  match style? with
  | none => .ok (.number name none location, c)
  | some (text, styleLocation) =>
    let style ← numberStyle o text styleLocation c
    .ok (.number name (some style) location, c)

/-- Reads a date or time argument from behind its type on. -/
def readDateTime (o : ParseOptions) (kind : DateTimeKind) (name : String) (opening : Position)
    (c : Cursor) : Except Failure (Element × Cursor) := do
  let (style?, c) ← readOptionalStyle c
  let c ← c.closeBrace opening
  let location := c.since opening
  match style? with
  | none => .ok (.dateTime kind name none location, c)
  | some (text, styleLocation) =>
    let style ← dateTimeStyle o text styleLocation location c
    .ok (.dateTime kind name (some style) location, c)

/-- Reads an argument from its type on. -/
def readTypedArgument (inner : NestedReader) (o : ParseOptions) (s : Scope) (name : String)
    (opening : Position) (c : Cursor) : Except Failure (Element × Cursor) :=
  let (word, d) := c.identifier
  if word = "" then d.fail .expectArgumentType c.here
  else
    match argumentTypes.lookup word with
    | none => d.fail .invalidArgumentType (d.since c.position)
    | some .number => readNumber o name opening d
    | some (.dateTime kind) => readDateTime o kind name opening d
    | some (.selector plural) => readSelectorArgument inner o s plural name opening d

/-- Reads what follows the name of an argument. -/
def readArgumentTail (inner : NestedReader) (o : ParseOptions) (s : Scope) (name : String)
    (opening : Position) (c : Cursor) : Except Failure (Element × Cursor) :=
  match c.rest with
  | [] => c.fail .expectArgumentClosingBrace (c.since opening)
  | ch :: _ =>
    if ch = '}' then
      let c := c.bump
      .ok (.argument name (c.since opening), c)
    else if ch = ',' then
      let c := c.bump.skipSpace
      if c.rest.isEmpty then c.fail .expectArgumentClosingBrace (c.since opening)
      else readTypedArgument inner o s name opening c
    else c.fail .malformedArgument (c.since opening)

/-- Reads an argument from its opening brace on. -/
def readArgument (inner : NestedReader) (o : ParseOptions) (s : Scope) (c : Cursor) :
    Except Failure (Element × Cursor) :=
  let opening := c.position
  let c := c.bump.skipSpace
  match c.rest with
  | [] => c.fail .expectArgumentClosingBrace (c.since opening)
  | ch :: _ =>
    if ch = '}' then
      let c := c.bump
      c.fail .emptyArgument (c.since opening)
    else
      let (name, c) := c.identifier
      if name = "" then c.fail .malformedArgument (c.since opening)
      else readArgumentTail inner o s name opening c.skipSpace

end MessagePattern
