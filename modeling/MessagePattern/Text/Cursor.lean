/-
# Cursors

A cursor stands in front of the text that is still to be read and knows where in
the message it stands: as a `Position` and as an offset in UTF-8 bytes.  Every
operation is `advance` by some number of scalars, so position and byte offset
always tell the length of what was read, and no operation goes back or stops
inside a scalar.
-/

import MessagePattern.Text.Position
import MessagePattern.Text.CharClass

namespace MessagePattern

/-- A place in a message, together with the text after it. -/
structure Cursor where
  /-- What has not been read yet. -/
  rest : List Char
  /-- Where the cursor stands, in code units, lines and columns. -/
  position : Position
  /-- The number of UTF-8 bytes before the cursor. -/
  byteOffset : Nat
  deriving DecidableEq

namespace Cursor

/-- The cursor in front of a whole message. -/
def start (message : List Char) : Cursor := ⟨message, .start, 0⟩

/-- Moves past one scalar, and stays where it is at the end of the message. -/
def bump (c : Cursor) : Cursor :=
  match c.rest with
  | [] => c
  | ch :: rest => ⟨rest, c.position.next ch, c.byteOffset + ch.utf8Size⟩

/-- Moves past `n` scalars, or to the end of the message. -/
def advance : Nat → Cursor → Cursor
  | 0, c => c
  | n + 1, c => advance n c.bump

/-- The empty location at the cursor. -/
def here (c : Cursor) : Location := .point c.position

/-- The location from an earlier position to the cursor. -/
def since (c : Cursor) (p : Position) : Location := ⟨p, c.position⟩

/-- The text between an earlier cursor and this one. -/
def textSince (c earlier : Cursor) : List Char :=
  earlier.rest.take (earlier.rest.length - c.rest.length)

/-- Moves past `text` if the message goes on with it. -/
def skip? (text : List Char) (c : Cursor) : Option Cursor :=
  if text.isPrefixOf c.rest then some (c.advance text.length) else none

/-- Reads the longest run of scalars that satisfy `p`. -/
def readWhile (p : Char → Bool) (c : Cursor) : List Char × Cursor :=
  let run := c.rest.takeWhile p
  (run, c.advance run.length)

/-- Moves past pattern white space. -/
def skipSpace (c : Cursor) : Cursor := (c.readWhile isPatternSpace).2

/-- The number of scalars in front of the first occurrence of `pattern`. -/
def distance? (pattern : List Char) : List Char → Option Nat
  | [] => if pattern.isEmpty then some 0 else none
  | c :: text =>
    if pattern.isPrefixOf (c :: text) then some 0
    else (distance? pattern text).map (· + 1)

/-- Moves to the first occurrence of `pattern`, or to the end of the message if
there is none, and says which of the two happened. -/
def seek (pattern : List Char) (c : Cursor) : Bool × Cursor :=
  match distance? pattern c.rest with
  | some n => (true, c.advance n)
  | none => (false, c.advance c.rest.length)

/-- How many scalars of a text to pass until at least `bytes` bytes are behind. -/
def scalarsFor (bytes : Nat) : List Char → Nat
  | [] => 0
  | c :: text => if bytes = 0 then 0 else scalarsFor (bytes - c.utf8Size) text + 1

/-- Moves on to the first point whose byte offset is at least `target`, or to the
end of the message if there is none. -/
def bumpTo (target : Nat) (c : Cursor) : Cursor :=
  c.advance (scalarsFor (target - c.byteOffset) c.rest)

@[simp] theorem advance_zero (c : Cursor) : c.advance 0 = c := rfl

@[simp] theorem advance_succ (n : Nat) (c : Cursor) : c.advance (n + 1) = c.bump.advance n := rfl

theorem rest_bump (c : Cursor) : c.bump.rest = c.rest.drop 1 := by
  unfold bump
  split <;> simp_all

/-- Advancing drops exactly as many scalars as asked for. -/
@[simp] theorem rest_advance (n : Nat) (c : Cursor) : (c.advance n).rest = c.rest.drop n := by
  induction n generalizing c with
  | zero => simp
  | succ n ih => rw [advance_succ, ih, rest_bump, List.drop_drop, Nat.add_comm]

theorem advance_advance (m n : Nat) (c : Cursor) : (c.advance m).advance n = c.advance (m + n) := by
  induction m generalizing c with
  | zero => simp
  | succ m ih => rw [advance_succ, ih, Nat.succ_add, advance_succ]

end Cursor

end MessagePattern
