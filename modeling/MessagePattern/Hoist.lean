/-
# Hoisting selectors

Hoisting lifts the plural and select arguments of a message to its top, so that
every branch reads as a whole sentence: the first selector becomes the whole
message and what surrounded it is copied into each of its branches, which are
hoisted in turn.  A selector inside a tag cannot be lifted, since the tag would
have to be split.

The lists that hoisting recurs on may be longer than the one it started from, but
they hold fewer selectors; `selectorCount` bounds the recursion.
-/

import MessagePattern.Element
import MessagePattern.Error

namespace MessagePattern

mutual

/-- The number of selectors in an element, at all depths. -/
def Element.selectorCount : Element → Nat
  | .selector _ _ branches _ => selectorCountBranches branches + 1
  | .tag _ children _ => selectorCount children
  | _ => 0

/-- The number of selectors in a list of elements, at all depths. -/
def selectorCount : List Element → Nat
  | [] => 0
  | e :: es => e.selectorCount + selectorCount es

/-- The number of selectors in the branches of a selector, at all depths. -/
def selectorCountBranches : List (Branch Element) → Nat
  | [] => 0
  | ⟨_, value, _⟩ :: branches => selectorCount value + selectorCountBranches branches

end

mutual

/-- Whether an element is a selector or a tag with a selector in it. -/
def Element.containsSelector : Element → Bool
  | .selector _ _ _ _ => true
  | .tag _ children _ => containsSelector children
  | _ => false

/-- Whether a list of elements has a selector at its top or in its tags. -/
def containsSelector : List Element → Bool
  | [] => false
  | e :: es => e.containsSelector || containsSelector es

end

/-- Why a message cannot be hoisted. -/
inductive HoistError
  | selectorInsideTag (tag : String)
  deriving DecidableEq

namespace HoistError

/-- The name of the cause in reports. -/
def kind : HoistError → String
  | .selectorInsideTag _ => "SelectorInsideTag"

/-- The wording of the cause. -/
def message : HoistError → String
  | .selectorInsideTag tag => s!"cannot hoist plural/select within tag `<{tag}>`"

/-- What a tool shows of the error. -/
def diagnostic : HoistError → Diagnostic
  | .selectorInsideTag _ =>
    { code := "icu::hoist::selector_inside_tag"
      help := some "put the tag inside each plural/select option instead"
      labels := [] }

end HoistError

/-- What hoisting finds first in a list of elements. -/
inductive Obstacle
  /-- Neither a selector nor a tag with one. -/
  | none
  /-- A tag with a selector in it. -/
  | tag (name : String)
  /-- A selector between other elements. -/
  | selector (before : List Element) (kind : SelectorKind) (name : String)
      (branches : List (Branch Element)) (location : Location) (after : List Element)

/-- The same obstacle, one element later. -/
def Obstacle.behind (e : Element) : Obstacle → Obstacle
  | .selector before kind name branches location after =>
    .selector (e :: before) kind name branches location after
  | obstacle => obstacle

/-- Finds the first element that is a selector or a tag with one. -/
def findObstacle : List Element → Obstacle
  | [] => .none
  | .selector kind name branches location :: es => .selector [] kind name branches location es
  | .tag name children location :: es =>
    if containsSelector children then .tag name
    else (findObstacle es).behind (.tag name children location)
  | e :: es => (findObstacle es).behind e

/-- Hoists a list with at most `bound` selectors. -/
def hoistWithin : (bound : Nat) → List Element → Except HoistError (List Element)
  | 0, elements => .ok elements
  | bound + 1, elements =>
    match findObstacle elements with
    | .none => .ok elements
    | .tag name => .error (.selectorInsideTag name)
    | .selector before kind name branches location after => do
      let branches ← branches.mapM fun b => do
        let value ← hoistWithin bound (before ++ b.value ++ after)
        return { b with value := value }
      return [.selector kind name branches location]

/-- Lifts all selectors to the top of a message. -/
def hoistSelectors (elements : List Element) : Except HoistError (List Element) :=
  hoistWithin (selectorCount elements) elements

end MessagePattern
