/-
# Errors of reading a message

Reading a message ends at the first fault.  A `ParseError` says what kind of
fault it is, where it is, and, if a skeleton was at fault, why.  Names, codes and
wording of the kinds are stable: tools match on them.

Locations count UTF-16 code units, and reports that point into the text need
UTF-8 bytes.  `byteOffset` converts one into the other for any offset, also one
inside a surrogate pair or behind the end.
-/

import MessagePattern.Text.Position
import MessagePattern.Skeleton.Error

namespace MessagePattern

/-- What can be wrong with a message, or with the use of its reader. -/
inductive ErrorKind
  /-- A failure that is not one of form, given as the cause. -/
  | other
  | expectArgumentClosingBrace
  | emptyArgument
  | malformedArgument
  | expectArgumentType
  | invalidArgumentType
  | expectArgumentStyle
  | invalidNumberSkeleton
  | invalidDateTimeSkeleton
  | expectNumberSkeleton
  | expectDateTimeSkeleton
  | unclosedQuoteInArgumentStyle
  | expectSelectArgumentOptions
  | expectPluralArgumentOffsetValue
  | invalidPluralArgumentOffsetValue
  | expectSelectArgumentSelector
  | expectPluralArgumentSelector
  | expectSelectArgumentSelectorFragment
  | expectPluralArgumentSelectorFragment
  | invalidPluralArgumentSelector
  | duplicatePluralArgumentSelector
  | duplicateSelectArgumentSelector
  | missingOtherClause
  | invalidTag
  | invalidTagName
  | unmatchedClosingTag
  | unclosedTag
  /-- Tags or branches nested deeper than allowed. -/
  | exceededMaxNestingDepth
  /-- A parser was asked to read its message a second time. -/
  | illegalParserUsage
  deriving DecidableEq

namespace ErrorKind

/-- All kinds, in the order of their codes. -/
def all : List ErrorKind :=
  [.other, .expectArgumentClosingBrace, .emptyArgument, .malformedArgument, .expectArgumentType,
    .invalidArgumentType, .expectArgumentStyle, .invalidNumberSkeleton, .invalidDateTimeSkeleton,
    .expectNumberSkeleton, .expectDateTimeSkeleton, .unclosedQuoteInArgumentStyle,
    .expectSelectArgumentOptions, .expectPluralArgumentOffsetValue,
    .invalidPluralArgumentOffsetValue, .expectSelectArgumentSelector,
    .expectPluralArgumentSelector, .expectSelectArgumentSelectorFragment,
    .expectPluralArgumentSelectorFragment, .invalidPluralArgumentSelector,
    .duplicatePluralArgumentSelector, .duplicateSelectArgumentSelector, .missingOtherClause,
    .invalidTag, .invalidTagName, .unmatchedClosingTag, .unclosedTag, .exceededMaxNestingDepth,
    .illegalParserUsage]

/-- The stable number of a kind. -/
def code (k : ErrorKind) : Nat := all.idxOf k

/-- The kind with a given number. -/
def ofCode? (n : Nat) : Option ErrorKind := all[n]?

/-- The number of a kind leads back to it. -/
@[simp] theorem ofCode?_code (k : ErrorKind) : ofCode? k.code = some k := by
  cases k <;> rfl

/-- The stable name of a kind. -/
def name : ErrorKind → String
  | .other => "OTHER"
  | .expectArgumentClosingBrace => "EXPECT_ARGUMENT_CLOSING_BRACE"
  | .emptyArgument => "EMPTY_ARGUMENT"
  | .malformedArgument => "MALFORMED_ARGUMENT"
  | .expectArgumentType => "EXPECT_ARGUMENT_TYPE"
  | .invalidArgumentType => "INVALID_ARGUMENT_TYPE"
  | .expectArgumentStyle => "EXPECT_ARGUMENT_STYLE"
  | .invalidNumberSkeleton => "INVALID_NUMBER_SKELETON"
  | .invalidDateTimeSkeleton => "INVALID_DATE_TIME_SKELETON"
  | .expectNumberSkeleton => "EXPECT_NUMBER_SKELETON"
  | .expectDateTimeSkeleton => "EXPECT_DATE_TIME_SKELETON"
  | .unclosedQuoteInArgumentStyle => "UNCLOSED_QUOTE_IN_ARGUMENT_STYLE"
  | .expectSelectArgumentOptions => "EXPECT_SELECT_ARGUMENT_OPTIONS"
  | .expectPluralArgumentOffsetValue => "EXPECT_PLURAL_ARGUMENT_OFFSET_VALUE"
  | .invalidPluralArgumentOffsetValue => "INVALID_PLURAL_ARGUMENT_OFFSET_VALUE"
  | .expectSelectArgumentSelector => "EXPECT_SELECT_ARGUMENT_SELECTOR"
  | .expectPluralArgumentSelector => "EXPECT_PLURAL_ARGUMENT_SELECTOR"
  | .expectSelectArgumentSelectorFragment => "EXPECT_SELECT_ARGUMENT_SELECTOR_FRAGMENT"
  | .expectPluralArgumentSelectorFragment => "EXPECT_PLURAL_ARGUMENT_SELECTOR_FRAGMENT"
  | .invalidPluralArgumentSelector => "INVALID_PLURAL_ARGUMENT_SELECTOR"
  | .duplicatePluralArgumentSelector => "DUPLICATE_PLURAL_ARGUMENT_SELECTOR"
  | .duplicateSelectArgumentSelector => "DUPLICATE_SELECT_ARGUMENT_SELECTOR"
  | .missingOtherClause => "MISSING_OTHER_CLAUSE"
  | .invalidTag => "INVALID_TAG"
  | .invalidTagName => "INVALID_TAG_NAME"
  | .unmatchedClosingTag => "UNMATCHED_CLOSING_TAG"
  | .unclosedTag => "UNCLOSED_TAG"
  | .exceededMaxNestingDepth => "EXCEEDED_MAX_NESTING_DEPTH"
  | .illegalParserUsage => "ILLEGAL_PARSER_USAGE"

/-- The wording of a kind. -/
def description : ErrorKind → String
  | .other => "unexpected internal failure"
  | .expectArgumentClosingBrace => "expected `\x7d` to close the argument"
  | .emptyArgument => "argument is empty"
  | .malformedArgument => "malformed argument"
  | .expectArgumentType => "expected an argument type"
  | .invalidArgumentType => "invalid argument type"
  | .expectArgumentStyle => "expected an argument style"
  | .invalidNumberSkeleton => "invalid number skeleton"
  | .invalidDateTimeSkeleton => "invalid date-time skeleton"
  | .expectNumberSkeleton => "expected a number skeleton after `::`"
  | .expectDateTimeSkeleton => "expected a date-time skeleton after `::`"
  | .unclosedQuoteInArgumentStyle => "unclosed quote in argument style"
  | .expectSelectArgumentOptions => "expected options after the argument type"
  | .expectPluralArgumentOffsetValue => "expected an integer offset value"
  | .invalidPluralArgumentOffsetValue => "offset value is out of range"
  | .expectSelectArgumentSelector => "expected a select selector"
  | .expectPluralArgumentSelector => "expected a plural selector"
  | .expectSelectArgumentSelectorFragment => "expected `\x7b` to open the select branch"
  | .expectPluralArgumentSelectorFragment => "expected `\x7b` to open the plural branch"
  | .invalidPluralArgumentSelector => "exact-match selector value is out of range"
  | .duplicatePluralArgumentSelector => "duplicate plural selector"
  | .duplicateSelectArgumentSelector => "duplicate select selector"
  | .missingOtherClause => "missing `other` clause"
  | .invalidTag => "invalid tag"
  | .invalidTagName => "invalid tag name"
  | .unmatchedClosingTag => "closing tag does not match any opening tag"
  | .unclosedTag => "tag is never closed"
  | .exceededMaxNestingDepth => "message is nested too deeply"
  | .illegalParserUsage => "a parser instance can only be used once"

/-- Advice on how to mend the message, where there is some. -/
def help? : ErrorKind → Option String
  | .missingOtherClause => some "add an `other \x7b...\x7d` branch"
  | .malformedArgument =>
    some "argument names cannot contain whitespace or syntax characters"
  | .invalidArgumentType =>
    some "use one of number, date, time, plural, selectordinal, or select"
  | .unclosedQuoteInArgumentStyle => some "close the quoted text with `'`"
  | .illegalParserUsage => some "create a new parser for every message"
  | _ => none

/-- Whether the fault is in the text of the message. -/
def isSyntaxError (k : ErrorKind) : Bool :=
  k != .other && k != .illegalParserUsage

end ErrorKind

/-- What stands behind a parse error. -/
inductive ErrorCause
  /-- A skeleton that was refused. -/
  | skeleton (error : SkeletonError)
  /-- A breakdown of the reader itself, with what it said. -/
  | panic (reason : String)
  deriving DecidableEq

/-- The wording of a cause. -/
def ErrorCause.message : ErrorCause → String
  | .skeleton error => error.message
  | .panic reason => s!"internal failure: {reason}"

/-- The first fault of a message. -/
structure ParseError where
  kind : ErrorKind
  /-- The whole message that was read. -/
  message : String
  location : Location
  cause : Option ErrorCause
  deriving DecidableEq

/-- The number of bytes before the first point of a text that has at least
`offset` UTF-16 code units before it, or of the whole text if there is none. -/
def byteOffset (offset : Nat) : List Char → Nat
  | [] => 0
  | c :: text =>
    if offset = 0 then 0 else byteOffset (offset - utf16Width c) text + c.utf8Size

/-- A part of a text, in UTF-8 bytes. -/
structure ByteSpan where
  offset : Nat
  length : Nat
  deriving DecidableEq

/-- A piece of advice that points at a part of the message. -/
structure Label where
  text : String
  span : ByteSpan
  deriving DecidableEq

/-- What a tool shows of an error besides its wording. -/
structure Diagnostic where
  code : String
  help : Option String
  labels : List Label
  deriving DecidableEq

namespace ParseError

/-- The location in bytes.  A location whose end is before its start is empty
at its start. -/
def byteSpan (e : ParseError) : ByteSpan :=
  let start := byteOffset e.location.start.offset e.message.toList
  let stop := byteOffset e.location.stop.offset e.message.toList
  ⟨start, stop - start⟩

/-- What the label of the error says: the cause if there is one. -/
def label (e : ParseError) : String :=
  match e.cause with
  | some cause => cause.message
  | none => e.kind.description

/-- What a tool shows of a parse error. -/
def diagnostic (e : ParseError) : Diagnostic where
  code := s!"icu::parse::{e.kind.name.toLower}"
  help := e.kind.help?
  labels := [⟨e.label, e.byteSpan⟩]

end ParseError

/-- What a tool shows of a skeleton error that stands alone. -/
def SkeletonError.diagnostic (e : SkeletonError) : Diagnostic where
  code := e.code
  help := none
  labels := []

end MessagePattern
