/-
# What all readers of message parts share

A reader takes a cursor and gives back what it has read with the cursor behind
it, or a `Failure`.  This module holds the options that steer reading, the
`Scope` that says what encloses the text being read, and the readers of names.
-/

import MessagePattern.Text.Cursor
import MessagePattern.Error

namespace MessagePattern

/-- Choices of the caller that steer reading. -/
structure ParseOptions where
  /-- Angle brackets are text and never tags. -/
  ignoreTag : Bool := false
  /-- Every plural and select argument needs a branch for `other`. -/
  requiresOtherClause : Bool := false
  /-- Skeletons are interpreted while they are read. -/
  shouldParseSkeletons : Bool := false
  /-- How deep tags and branches may be nested. -/
  maxNestingDepth : Nat := 50
  deriving DecidableEq

/-- What encloses the text being read, as far as it decides how to read it. -/
structure Scope where
  /-- Inside a branch or tag, where a closing brace ends the text. -/
  nested : Bool
  /-- Directly inside a plural branch, where a number sign stands for the number. -/
  plural : Bool
  /-- Inside a tag, where a closing tag ends the text. -/
  inTag : Bool
  deriving DecidableEq

namespace Scope

/-- The scope of a whole message. -/
def top : Scope := ⟨false, false, false⟩

/-- The scope of the text between an opening and a closing tag. -/
def tagBody (s : Scope) : Scope := ⟨true, s.plural, true⟩

/-- The scope of a branch. -/
def branch (s : Scope) (plural : Bool) : Scope := ⟨true, plural, s.inTag⟩

end Scope

/-- Where and why reading came to an end. -/
structure Failure where
  kind : ErrorKind
  location : Location
  cause : Option ErrorCause
  /-- Where the cursor was left. -/
  stop : Position
  deriving DecidableEq

namespace Cursor

/-- Fails at the cursor, with a location of its own. -/
def fail {α : Type} (c : Cursor) (kind : ErrorKind) (location : Location) : Except Failure α :=
  .error ⟨kind, location, none, c.position⟩

/-- Fails at the cursor because a skeleton was refused. -/
def failWith {α : Type} (c : Cursor) (kind : ErrorKind) (location : Location)
    (cause : SkeletonError) : Except Failure α :=
  .error ⟨kind, location, some (.skeleton cause), c.position⟩

/-- Reads the longest run of identifier characters, which may be empty. -/
def identifier (c : Cursor) : String × Cursor :=
  let (name, c) := c.readWhile isIdentifierChar
  (String.ofList name, c)

/-- Reads a tag name: one scalar, which the caller knows to be a letter, and the
longest run of name characters behind it. -/
def tagName (c : Cursor) : String × Cursor :=
  let name := c.rest.take 1 ++ (c.rest.drop 1).takeWhile isTagNameChar
  (String.ofList name, c.advance name.length)

/-- Moves past `text` or fails. -/
def expect (text : List Char) (c : Cursor) (kind : ErrorKind) (location : Location) :
    Except Failure Cursor :=
  match c.skip? text with
  | some c => .ok c
  | none => c.fail kind location

/-- Moves past the brace that closes what was opened at `opening`. -/
def closeBrace (c : Cursor) (opening : Position) : Except Failure Cursor :=
  c.expect ['}'] .expectArgumentClosingBrace (c.since opening)

end Cursor

end MessagePattern
