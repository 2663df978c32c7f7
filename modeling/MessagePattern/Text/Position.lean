/-
# Positions in the text of a message

A position counts what has been read before it in two ways at once: as an
offset in UTF-16 code units, the unit in which most editing tools count, and as
a line and a column in scalars, for people.  Only a line feed ends a line.

`Position.after` says where reading a text leads, so every position of a
message is `Position.start.after u` for the text `u` before it.
-/

namespace MessagePattern

/-- The number of UTF-16 code units that one scalar takes: a scalar outside the
Basic Multilingual Plane is written as a surrogate pair. -/
def utf16Width (c : Char) : Nat :=
  if c.toNat < 0x10000 then 1 else 2

/-- The length of a text in UTF-16 code units. -/
def utf16Length (text : List Char) : Nat :=
  text.foldr (fun c n => utf16Width c + n) 0

/-- The length of a text in UTF-8 bytes. -/
def utf8Length (text : List Char) : Nat :=
  text.foldr (fun c n => c.utf8Size + n) 0

/-- A point between two scalars of a message. -/
structure Position where
  /-- UTF-16 code units before the point. -/
  offset : Nat
  /-- One more than the number of line feeds before the point. -/
  line : Nat
  /-- One more than the number of scalars since the last line feed. -/
  column : Nat
  deriving DecidableEq

namespace Position

/-- The point before the first scalar of any message. -/
def start : Position := ⟨0, 1, 1⟩

/-- The point after one more scalar. -/
def next (p : Position) (c : Char) : Position :=
  if c = '\n' then ⟨p.offset + utf16Width c, p.line + 1, 1⟩
  else ⟨p.offset + utf16Width c, p.line, p.column + 1⟩

/-- The point after a whole text. -/
def after (p : Position) (text : List Char) : Position :=
  text.foldl next p

@[simp] theorem after_nil (p : Position) : p.after [] = p := rfl

@[simp] theorem after_cons (p : Position) (c : Char) (text : List Char) :
    p.after (c :: text) = (p.next c).after text := rfl

theorem after_append (p : Position) (first second : List Char) :
    p.after (first ++ second) = (p.after first).after second := by
  simp [after, List.foldl_append]

@[simp] theorem next_offset (p : Position) (c : Char) :
    (p.next c).offset = p.offset + utf16Width c := by
  unfold next
  split <;> rfl

/-- Reading a text moves the offset on by the text's length in code units. -/
theorem after_offset (p : Position) (text : List Char) :
    (p.after text).offset = p.offset + utf16Length text := by
  induction text generalizing p with
  | nil => simp [utf16Length]
  | cons c text ih =>
    rw [after_cons, ih, next_offset]
    simp [utf16Length, Nat.add_assoc]

end Position

/-- The part of a message between two points, the second one excluded. -/
structure Location where
  /-- Where the part begins. -/
  start : Position
  /-- The first point that no longer belongs to it. -/
  stop : Position
  deriving DecidableEq

namespace Location

/-- The empty part at one point. -/
def point (p : Position) : Location := ⟨p, p⟩

/-- The length in UTF-16 code units.  A location whose ends are reversed has
length zero. -/
def length (l : Location) : Nat := l.stop.offset - l.start.offset

/-- Whether the part holds no text. -/
def isEmpty (l : Location) : Bool := l.length == 0

end Location

end MessagePattern
