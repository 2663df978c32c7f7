/-
# Comparing messages by their variables

Two messages are structurally the same if they name the same variables with the
same types, wherever they name them; a tag counts as a variable of its own type.
A name that one message uses with two types is an error of that message.

`typedNames` lists the occurrences in document order, and a table of variables
keeps the first occurrence of each name, so reports list names as first seen.
-/

import MessagePattern.Element
import MessagePattern.Error

namespace MessagePattern

mutual

/-- The names that an element uses, with their types, its own first. -/
def Element.typedNames : Element → List (String × ElementType)
  | .literal _ _ => []
  | .argument name _ => [(name, .argument)]
  | .number name _ _ => [(name, .number)]
  | .dateTime .date name _ _ => [(name, .date)]
  | .dateTime .time name _ _ => [(name, .time)]
  | .selector (.plural _ _) name branches _ => (name, .plural) :: typedNamesBranches branches
  | .selector .select name branches _ => (name, .select) :: typedNamesBranches branches
  | .pound _ => []
  | .tag name children _ => (name, .tag) :: typedNames children

/-- The names that a list of elements uses, in document order. -/
def typedNames : List Element → List (String × ElementType)
  | [] => []
  | e :: es => e.typedNames ++ typedNames es

/-- The names that the branches of a selector use, in document order. -/
def typedNamesBranches : List (Branch Element) → List (String × ElementType)
  | [] => []
  | ⟨_, value, _⟩ :: branches => typedNames value ++ typedNamesBranches branches

end

/-- Why two messages are not structurally the same. -/
inductive StructuralMismatch
  | variableCount (left right : List String)
  | missingVariable (name : String)
  | conflictingTypes (name : String) (left right : ElementType)
  deriving DecidableEq

namespace StructuralMismatch

/-- The name of the cause in reports. -/
def kind : StructuralMismatch → String
  | .variableCount _ _ => "VariableCount"
  | .missingVariable _ => "MissingVariable"
  | .conflictingTypes _ _ _ => "ConflictingTypes"

/-- The wording of the cause. -/
def message : StructuralMismatch → String
  | .variableCount left right =>
    "different number of variables: [" ++ ", ".intercalate left ++ "] vs ["
      ++ ", ".intercalate right ++ "]"
  | .missingVariable name => s!"missing variable `{name}` in message"
  | .conflictingTypes name left right =>
    s!"variable `{name}` has conflicting types: {Keyword.word left} vs {Keyword.word right}"

/-- What a tool shows of the mismatch. -/
def diagnostic (m : StructuralMismatch) : Diagnostic where
  code :=
    match m with
    | .variableCount _ _ => "icu::structure::variable_count"
    | .missingVariable _ => "icu::structure::missing_variable"
    | .conflictingTypes _ _ _ => "icu::structure::conflicting_types"
  help := none
  labels := []

end StructuralMismatch

/-- The variables of a message with their types, as first seen. -/
abbrev Variables := List (String × ElementType)

namespace Variables

/-- Enters an occurrence of a name.  A name that is known has to keep its type. -/
def record (vars : Variables) (occurrence : String × ElementType) :
    Except StructuralMismatch Variables :=
  match vars.lookup occurrence.1 with
  | none => .ok (vars ++ [occurrence])
  | some known =>
    if known = occurrence.2 then .ok vars
    else .error (.conflictingTypes occurrence.1 known occurrence.2)

/-- The variables of a message. -/
def ofElements (elements : List Element) : Except StructuralMismatch Variables :=
  (typedNames elements).foldlM record []

/-- Compares one variable with those of another message. -/
def check (vars : Variables) (used : String × ElementType) :
    Except StructuralMismatch Unit :=
  match vars.lookup used.1 with
  | none => .error (.missingVariable used.1)
  | some type =>
    if used.2 = type then .ok () else .error (.conflictingTypes used.1 used.2 type)

end Variables

/-- Checks that two messages use the same variables with the same types.  The
first message is examined before the second, the number of variables before the
variables themselves. -/
def structurallySame (a b : List Element) : Except StructuralMismatch Unit := do
  let left ← Variables.ofElements a
  let right ← Variables.ofElements b
  if left.length ≠ right.length then
    .error (.variableCount (left.map Prod.fst) (right.map Prod.fst))
  else left.forM (Variables.check right)

end MessagePattern
