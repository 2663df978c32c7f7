/-
# Single-use parsers

A parser holds one message and reads it once.  Asked again it fails, at the point
where the first reading came to rest, whether that reading succeeded or not.
-/

import MessagePattern.Reader.Message

namespace MessagePattern

/-- A message that may be read once. -/
structure Parser where
  message : String
  options : ParseOptions
  /-- Where the cursor rests. -/
  position : Position
  /-- Whether the message has been read. -/
  used : Bool

namespace Parser

/-- A parser that has not read its message yet. -/
def new (message : String) (options : ParseOptions) : Parser :=
  ⟨message, options, .start, false⟩

/-- Reads the message, and leaves a parser that is used up. -/
def parse (p : Parser) : Except ParseError (List Element) × Parser :=
  if p.used then
    (.error ⟨.illegalParserUsage, p.message, .point p.position, none⟩, p)
  else
    match readAll p.options p.message.toList with
    | .ok (elements, c) => (.ok elements, { p with position := c.position, used := true })
    | .error f => (.error (f.toError p.message), { p with position := f.stop, used := true })

/-- The outcomes of reading `n` times in a row. -/
def parseTimes : Nat → Parser → List (Except ParseError (List Element))
  | 0, _ => []
  | n + 1, p =>
    let (outcome, p) := p.parse
    outcome :: parseTimes n p

/-- The first reading of a parser is the reading of its message. -/
theorem parse_new (message : String) (options : ParseOptions) :
    (new message options).parse.1 = MessagePattern.parse message options := by
  unfold parse MessagePattern.parse new
  simp only [Bool.false_eq_true, ↓reduceIte]
  split <;> simp_all

end Parser

end MessagePattern
