/-
# JSON values

Trees, skeletons and errors are exchanged as JSON.  A value keeps the order of
its fields and tells integers from other numbers, as readers of integers have
to.  Text is not read or written here.
-/

import MessagePattern.Keyword
import MessagePattern.Decimal.Binary64

namespace MessagePattern

/-- A JSON value. -/
inductive Json
  | null
  | bool (b : Bool)
  | int (n : Int)
  | float (x : Binary64)
  | str (s : String)
  | arr (items : List Json)
  | obj (fields : List (String × Json))

namespace Json

mutual

/-- How deep arrays and objects are nested in a value. -/
def nesting : Json → Nat
  | .arr items => nestingItems items + 1
  | .obj fields => nestingFields fields + 1
  | _ => 0

/-- The greatest nesting among the items of an array. -/
def nestingItems : List Json → Nat
  | [] => 0
  | j :: items => max j.nesting (nestingItems items)

/-- The greatest nesting among the fields of an object. -/
def nestingFields : List (String × Json) → Nat
  | [] => 0
  | (_, j) :: fields => max j.nesting (nestingFields fields)

end

/-! ## Writing -/

/-- A value, or null if there is none. -/
def optional {α : Type} (write : α → Json) : Option α → Json
  | none => .null
  | some a => write a

/-- An object of those fields that are set. -/
def record (fields : List (String × Option Json)) : Json :=
  .obj (fields.filterMap fun (key, value) => value.map fun j => (key, j))

/-- A number.  There is no JSON for one that is not finite; null stands for it. -/
def ofFloat (x : Binary64) : Json := if x.isFinite then .float x else .null

/-- A word of a fixed list. -/
def ofKeyword {α : Type} [Keyword α] (a : α) : Json := .str (Keyword.word a)

/-! ## Reading

Where an object has a field twice, the first of the two is read.
-/

/-- The fields of an object. -/
def fields? : Json → Option (List (String × Json))
  | .obj fields => some fields
  | _ => none

/-- A text. -/
def string? : Json → Option String
  | .str s => some s
  | _ => none

/-- A truth value. -/
def bool? : Json → Option Bool
  | .bool b => some b
  | _ => none

/-- An integer from `low` to `high`. -/
def int? (low high : Int) : Json → Option Int
  | .int n => if low ≤ n ∧ n ≤ high then some n else none
  | _ => none

/-- A natural number up to `high`. -/
def nat? (high : Nat) (j : Json) : Option Nat :=
  (j.int? 0 high).map Int.toNat

/-- Any number, an integer being taken as the nearest one.  It has to be finite. -/
def float? : Json → Option Binary64
  | .int n => some (.ofInt n) |>.filter Binary64.isFinite
  | .float x => some x |>.filter Binary64.isFinite
  | _ => none

/-- A word of a fixed list. -/
def keyword? {α : Type} [Keyword α] (j : Json) : Option α :=
  j.string?.bind Keyword.ofWord?

/-- A list. -/
def list? {α : Type} (read : Json → Option α) : Json → Option (List α)
  | .arr items => items.mapM read
  | _ => none

/-- A field that has to be there. -/
def required {α : Type} (key : String) (read : Json → Option α)
    (fields : List (String × Json)) : Option α :=
  (fields.lookup key).bind read

/-- A field that counts as unset if it is missing or null. -/
def unsettable {α : Type} (key : String) (read : Json → Option α)
    (fields : List (String × Json)) : Option (Option α) :=
  match fields.lookup key with
  | none => some none
  | some .null => some none
  | some j => (read j).map some

/-- A field with a value of its own if it is missing. -/
def defaulting {α : Type} (key : String) (read : Json → Option α) (default : α)
    (fields : List (String × Json)) : Option α :=
  match fields.lookup key with
  | none => some default
  | some j => read j

end Json

/-- The largest unsigned 64-bit integer: positions and nesting depths fit it. -/
def maxWord64 : Nat := 0xFFFFFFFFFFFFFFFF

/-- The largest unsigned 32-bit integer: digit counts fit it. -/
def maxWord32 : Nat := 0xFFFFFFFF

end MessagePattern
