/-
# Plural and select arguments

Behind its type and a comma a plural or select argument has branches, each a
selector and a text in braces.  A plural may begin with an offset, and may have
exact selectors such as `=1` besides words.  No selector may occur twice.

Branches are read one after the other; there are at most as many as scalars are
left, since each takes at least its two braces.
-/

import MessagePattern.Reader.Tag
import MessagePattern.Reader.Integer

namespace MessagePattern

/-- The error kinds that differ between plural and select arguments. -/
structure SelectorErrors where
  duplicate : ErrorKind
  fragment : ErrorKind
  selector : ErrorKind

/-- The error kinds of a plural argument, or of a select argument. -/
def SelectorErrors.of (plural : Bool) : SelectorErrors :=
  if plural then
    ⟨.duplicatePluralArgumentSelector, .expectPluralArgumentSelectorFragment,
      .expectPluralArgumentSelector⟩
  else
    ⟨.duplicateSelectArgumentSelector, .expectSelectArgumentSelectorFragment,
      .expectSelectArgumentSelector⟩

/-- Reads the offset of a plural, if there is one, with the white space behind
it.  Without one the offset is zero. -/
def readOffset (plural : Bool) (c : Cursor) : Except Failure (Int × Cursor) :=
  let (word, d) := c.identifier
  if plural ∧ word = "offset" then do
    let d ← d.expect [':'] .expectPluralArgumentOffsetValue d.here
    let (offset, d) ← readInteger .expectPluralArgumentOffsetValue
      .invalidPluralArgumentOffsetValue d.skipSpace
    .ok (offset, d.skipSpace)
  else .ok (0, c)

/-- Reads a selector, or finds that the branches are over. -/
def readSelector (plural : Bool) (c : Cursor) : Except Failure (Option (String × Cursor)) :=
  let (word, d) := c.identifier
  if word ≠ "" then .ok (some (word, d))
  else if plural then
    match c.skip? ['='] with
    | none => .ok none
    | some d => do
      let (_, d) ← readInteger .expectPluralArgumentSelector .invalidPluralArgumentSelector d
      .ok (some (String.ofList (d.textSince c), d))
  else .ok none

/-- Reads the text of a branch in its braces, and the white space behind it. -/
def readFragment (inner : NestedReader) (s : Scope) (plural : Bool) (selector : String)
    (c : Cursor) : Except Failure (Branch Element × Cursor) := do
  let c := c.skipSpace
  let opening := c.position
  let c ← c.expect ['{'] (SelectorErrors.of plural).fragment c.here
  let (value, c) ← inner (s.branch plural) c
  let c ← c.closeBrace opening
  .ok (⟨selector, value, c.since opening⟩, c.skipSpace)

/-- Reads at most `bound` branches, none of them with a selector that was seen
before. -/
def readBranches (inner : NestedReader) (s : Scope) (plural : Bool) :
    (bound : Nat) → (seen : List String) → Cursor →
      Except Failure (List (Branch Element) × Cursor)
  | 0, _, c => .ok ([], c)
  | bound + 1, seen, c => do
    match ← readSelector plural c with
    | none => .ok ([], c)
    | some (selector, d) =>
      if selector ∈ seen then d.fail (SelectorErrors.of plural).duplicate (d.since c.position)
      else
        let (branch, d) ← readFragment inner s plural selector d
        let (branches, d) ← readBranches inner s plural bound (selector :: seen) d
        .ok (branch :: branches, d)

/-- Reads all branches.  There has to be one, and one of them has to be for
`other` if the options say so. -/
def readAllBranches (inner : NestedReader) (o : ParseOptions) (s : Scope) (plural : Bool)
    (c : Cursor) : Except Failure (List (Branch Element) × Cursor) := do
  let (branches, c) ← readBranches inner s plural c.rest.length [] c
  if branches.isEmpty then c.fail (SelectorErrors.of plural).selector c.here
  else if o.requiresOtherClause ∧ "other" ∉ branches.map Branch.selector then
    c.fail .missingOtherClause c.here
  else .ok (branches, c)

/-- The kind of a selector argument: a plural with its offset, or a select. -/
def selectorKind (offset : Int) : Option PluralType → SelectorKind
  | some type => .plural type offset
  | none => .select

/-- Reads a plural or select argument from behind its type on.  Without a plural
type it is a select argument. -/
def readSelectorArgument (inner : NestedReader) (o : ParseOptions) (s : Scope)
    (plural : Option PluralType) (name : String) (opening : Position) (c : Cursor) :
    Except Failure (Element × Cursor) := do
  let typeEnd := c.here
  let c := c.skipSpace
  let c ← c.expect [','] .expectSelectArgumentOptions typeEnd
  let (offset, c) ← readOffset plural.isSome c.skipSpace
  let (branches, c) ← readAllBranches inner o s plural.isSome c
  let c ← c.closeBrace opening
  .ok (.selector (selectorKind offset plural) name branches (c.since opening), c)

end MessagePattern
