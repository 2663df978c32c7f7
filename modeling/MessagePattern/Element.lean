/-
# Message elements

A message is a list of elements: literal text, arguments of several kinds,
number signs that stand for the number of the enclosing plural, and tags.  Every
element carries the location it was read from.

Plural and select arguments are one constructor, since most of what is said
about them is said of both: they choose one of their branches.  What sets them
apart is their `SelectorKind`.
-/

import MessagePattern.Keyword
import MessagePattern.Skeleton.Number
import MessagePattern.Skeleton.DateTime

namespace MessagePattern

/-- Whether a plural selects by the number of things or by their rank. -/
inductive PluralType
  | cardinal
  | ordinal
  deriving DecidableEq

instance : Keyword PluralType where
  all := [.cardinal, .ordinal]
  word
    | .cardinal => "cardinal"
    | .ordinal => "ordinal"
  find_word a := by cases a <;> decide

/-- The argument type by which a plural is written in a message. -/
def PluralType.keyword : PluralType → String
  | .cardinal => "plural"
  | .ordinal => "selectordinal"

/-- By what an argument chooses among its branches. -/
inductive SelectorKind
  /-- By the number that is left when `offset` is taken off the value. -/
  | plural (type : PluralType) (offset : Int)
  /-- By the value itself. -/
  | select
  deriving DecidableEq

/-- Whether a number sign directly inside the branches stands for the number. -/
def SelectorKind.isPlural : SelectorKind → Bool
  | .plural _ _ => true
  | .select => false

/-- The two arguments that format an instant. -/
inductive DateTimeKind
  | date
  | time
  deriving DecidableEq

/-- The argument type by which a date or time is written in a message. -/
def DateTimeKind.keyword : DateTimeKind → String
  | .date => "date"
  | .time => "time"

/-- How an argument is to be formatted: by a name that the formatter knows, or
by a skeleton. -/
inductive Style (σ : Type)
  | text (name : String)
  | skeleton (skeleton : σ)
  deriving DecidableEq

/-- One alternative of a plural or select argument. -/
structure Branch (α : Type) where
  /-- The value or category that chooses the branch. -/
  selector : String
  /-- What the branch says. -/
  value : List α
  /-- From the opening brace of the branch to its closing one. -/
  location : Location
  deriving DecidableEq

/-- One part of a message. -/
inductive Element
  | literal (text : String) (location : Location)
  | argument (name : String) (location : Location)
  | number (name : String) (style : Option (Style NumberSkeleton)) (location : Location)
  | dateTime (kind : DateTimeKind) (name : String) (style : Option (Style DateTimeSkeleton))
      (location : Location)
  | selector (kind : SelectorKind) (name : String) (branches : List (Branch Element))
      (location : Location)
  | pound (location : Location)
  | tag (name : String) (children : List Element) (location : Location)

/-- The kinds of elements that a reader of messages distinguishes. -/
inductive ElementType
  | literal
  | argument
  | number
  | date
  | time
  | select
  | plural
  | pound
  | tag
  deriving DecidableEq

instance : Keyword ElementType where
  all := [.literal, .argument, .number, .date, .time, .select, .plural, .pound, .tag]
  word
    | .literal => "literal"
    | .argument => "argument"
    | .number => "number"
    | .date => "date"
    | .time => "time"
    | .select => "select"
    | .plural => "plural"
    | .pound => "pound"
    | .tag => "tag"
  find_word a := by cases a <;> decide

namespace Element

/-- The part of the message that the element was read from. -/
def location : Element → Location
  | .literal _ l => l
  | .argument _ l => l
  | .number _ _ l => l
  | .dateTime _ _ _ l => l
  | .selector _ _ _ l => l
  | .pound l => l
  | .tag _ _ l => l

/-- The kind of an element. -/
def type : Element → ElementType
  | .literal _ _ => .literal
  | .argument _ _ => .argument
  | .number _ _ _ => .number
  | .dateTime .date _ _ _ => .date
  | .dateTime .time _ _ _ => .time
  | .selector (.plural _ _) _ _ _ => .plural
  | .selector .select _ _ _ => .select
  | .pound _ => .pound
  | .tag _ _ _ => .tag

/-- The name of an argument or tag.  Literals and number signs have none. -/
def name? : Element → Option String
  | .literal _ _ => none
  | .argument name _ => some name
  | .number name _ _ => some name
  | .dateTime _ name _ _ => some name
  | .selector _ name _ _ => some name
  | .pound _ => none
  | .tag name _ _ => some name

/-- Whether the element chooses among branches. -/
def isSelector : Element → Bool
  | .selector _ _ _ _ => true
  | _ => false

/-- The argument type by which a plural element is written. -/
def pluralKeyword? : Element → Option String
  | .selector (.plural type _) _ _ _ => some type.keyword
  | _ => none

/-- The selectors of a plural or select element, in order. -/
def selectors? : Element → Option (List String)
  | .selector _ _ branches _ => some (branches.map Branch.selector)
  | _ => none

end Element

end MessagePattern
