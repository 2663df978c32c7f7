/-
# Canonical trees

Which trees are the tree of a message, and which of them survive being written?
`WellFormedAt` describes the trees that reading can give, in terms of the tree
alone: what names, selectors, styles and offsets look like, where number signs
and tags may stand, and how deep branches and tags may be nested.  `Reprintable`
adds what writing needs on top: two details of a message leave no trace in what
is written, an explicit offset of zero and white space of the wider class next
to a number skeleton, and a tree that depends on one of them is not written
faithfully.  A tree is `Canonical` if both hold.

All of this is about trees.  That reading gives only well-formed trees, and that
canonical trees are those that can be written and read back, is proved
elsewhere.
-/

import Mathlib.Data.List.Chain
import MessagePattern.Printer
import MessagePattern.Reader.Style
import MessagePattern.Reader.Integer

namespace MessagePattern

/-! ## Words -/

/-- Names and word selectors: identifier characters, of which the first would not
be skipped as white space. -/
def isIdentifier (text : List Char) : Bool :=
  !text.isEmpty && text.all isIdentifierChar && !text.head?.any isPatternSpace

/-- Exact selectors: an equals sign in front of a safe integer. -/
def isExactSelector : List Char → Bool
  | '=' :: text =>
    !(splitSign text).2.isEmpty && (splitSign text).2.all Char.isDigit
      && decide (digitsValue (splitSign text).2 ≤ maxSafeInteger)
  | _ => false

/-- Selectors of a plural, or of a select argument. -/
def isSelectorText (plural : Bool) (text : List Char) : Bool :=
  isIdentifier text || (plural && isExactSelector text)

/-- Whether the offset of a plural can be read. -/
def SelectorKind.isSafe : SelectorKind → Bool
  | .plural _ offset => decide (offset.natAbs ≤ maxSafeInteger)
  | .select => true

/-! ## Styles -/

/-- Whether a text can stand as a style: with `depth` braces open and inside or
outside a quoted run at its start, every brace outside quoted runs is matched
and every quoted run ends. -/
def styleMatches (depth : Nat) (quoted : Bool) : List Char → Bool
  | [] => depth == 0 && !quoted
  | c :: text =>
    if c = '\'' then styleMatches depth (!quoted) text
    else if quoted then styleMatches depth true text
    else if c = '{' then styleMatches (depth + 1) false text
    else if c = '}' then
      match depth with
      | 0 => false
      | depth + 1 => styleMatches depth false text
    else styleMatches depth false text

/-- Whether a text begins or ends with white space that is trimmed from styles. -/
def isSpaceBounded (text : List Char) : Bool :=
  text.head?.any isSpace || text.getLast?.any isSpace

/-- Styles that are kept as text: not a skeleton, and nothing to trim. -/
structure IsTextStyle (text : List Char) : Prop where
  nonempty : text ≠ []
  start : text.head?.any isPatternSpace = false
  stop : text.getLast?.any isSpace = false
  plain : skeletonText? text = none
  balanced : styleMatches 0 false text

/-- The parts of a number token hold neither white space nor slashes. -/
def isTokenPart (text : List Char) : Bool :=
  text.all fun c => !isPatternSpace c && c != '/'

/-- Tokens that can be told apart from what surrounds them when they are written. -/
structure NumberToken.IsDistinct (t : NumberToken) : Prop where
  stem : isTokenPart t.stem.toList
  options : ∀ option ∈ t.options, option ≠ "" ∧ isTokenPart option.toList
  nonempty : t.stem ≠ "" ∨ t.options ≠ []

/-- What a skeleton was interpreted as, if reading was asked to interpret it. -/
def interpretation {α : Type} (o : ParseOptions) (meaning : Except SkeletonError α) :
    Option (Except SkeletonError α) :=
  if o.shouldParseSkeletons then some meaning else none

/-- Number skeletons that reading can give. -/
structure NumberSkeleton.WellFormed (o : ParseOptions) (k : NumberSkeleton) : Prop where
  nonempty : k.tokens ≠ []
  distinct : ∀ t ∈ k.tokens, t.IsDistinct
  balanced : styleMatches 0 false (renderTokens k.tokens)
  parsed : k.parsedOptions.map .ok = interpretation o (interpret k.tokens)

/-- Date-time skeletons that reading can give. -/
structure DateTimeSkeleton.WellFormed (o : ParseOptions) (k : DateTimeSkeleton) : Prop where
  nonempty : k.pattern.toList ≠ []
  trimmed : isSpaceBounded k.pattern.toList = false
  balanced : styleMatches 0 false k.pattern.toList
  parsed : k.parsedOptions.map .ok = interpretation o (interpret k.pattern.toList)

/-- Number styles that reading can give. -/
def NumberStyleWellFormed (o : ParseOptions) : Style NumberSkeleton → Prop
  | .text name => IsTextStyle name.toList
  | .skeleton k => k.WellFormed o

/-- Date and time styles that reading can give. -/
def DateTimeStyleWellFormed (o : ParseOptions) : Style DateTimeSkeleton → Prop
  | .text name => IsTextStyle name.toList
  | .skeleton k => k.WellFormed o

/-! ## Elements -/

/-- Two elements may be neighbours.  Literals next to each other are told apart
only if one of them is a self-closing tag, and tags are read. -/
def MayMeet (o : ParseOptions) : Element → Element → Prop
  | .literal first _, .literal second _ =>
    o.ignoreTag = false ∧
      (isSelfClosingTag first.toList = true ∨ isSelfClosingTag second.toList = true)
  | _, _ => True

/-- Branches as far as their selectors go. -/
structure SelectorsWellFormed (o : ParseOptions) (plural : Bool) (selectors : List String) :
    Prop where
  nonempty : selectors ≠ []
  distinct : selectors.Nodup
  readable : ∀ selector ∈ selectors, isSelectorText plural selector.toList = true
  other : o.requiresOtherClause = true → "other" ∈ selectors

mutual

/-- Elements that reading can give at a nesting level, directly inside a plural
branch or not. -/
def Element.WellFormed (o : ParseOptions) (level : Nat) (inPlural : Bool) : Element → Prop
  | .literal text _ => text ≠ ""
  | .argument name _ => isIdentifier name.toList = true
  | .number name style _ =>
    isIdentifier name.toList = true ∧ ∀ k ∈ style, NumberStyleWellFormed o k
  | .dateTime _ name style _ =>
    isIdentifier name.toList = true ∧ ∀ k ∈ style, DateTimeStyleWellFormed o k
  | .selector kind name branches _ =>
    isIdentifier name.toList = true ∧ kind.isSafe = true ∧
      SelectorsWellFormed o kind.isPlural (branches.map Branch.selector) ∧
      BranchesWellFormed o (level + 1) kind.isPlural branches
  | .pound _ => inPlural = true
  | .tag name children _ =>
    o.ignoreTag = false ∧ isTagName name.toList = true ∧ level + 1 ≤ o.maxNestingDepth ∧
      children.IsChain (MayMeet o) ∧ ElementsWellFormed o (level + 1) inPlural children

/-- Every element of a list is well formed. -/
def ElementsWellFormed (o : ParseOptions) (level : Nat) (inPlural : Bool) : List Element → Prop
  | [] => True
  | e :: es => e.WellFormed o level inPlural ∧ ElementsWellFormed o level inPlural es

/-- Every branch has a text that is well formed at the given level. -/
def BranchesWellFormed (o : ParseOptions) (level : Nat) (inPlural : Bool) :
    List (Branch Element) → Prop
  | [] => True
  | ⟨_, value, _⟩ :: branches =>
    (level ≤ o.maxNestingDepth ∧ value.IsChain (MayMeet o) ∧
        ElementsWellFormed o level inPlural value) ∧
      BranchesWellFormed o level inPlural branches

end

/-- The text of one scope: not too deep, and its elements well formed and fit to
be neighbours. -/
structure WellFormedAt (o : ParseOptions) (level : Nat) (inPlural : Bool)
    (elements : List Element) : Prop where
  level_le : level ≤ o.maxNestingDepth
  apart : elements.IsChain (MayMeet o)
  elements : ElementsWellFormed o level inPlural elements

/-- An offset of zero is not written, so a first selector that is the word for
offsets is taken for one. -/
def SelectorKind.hidesOffset (kind : SelectorKind) (branches : List (Branch Element)) : Bool :=
  match kind with
  | .plural _ offset =>
    offset == 0 && branches.head?.any fun b => b.selector == "offset"
  | .select => false

/-- A number skeleton next to which white space is trimmed loses what belongs to
its tokens. -/
def NumberStyleReprintable : Style NumberSkeleton → Prop
  | .text _ => True
  | .skeleton k => isSpaceBounded (NumberSkeleton.renderTokens k.tokens) = false

mutual

/-- Nothing that the element needs is lost when it is written. -/
def Element.Reprintable : Element → Prop
  | .number _ style _ => ∀ k ∈ style, NumberStyleReprintable k
  | .selector kind _ branches _ =>
    kind.hidesOffset branches = false ∧ BranchesReprintable branches
  | .tag _ children _ => Reprintable children
  | _ => True

/-- Nothing that a list of elements needs is lost when it is written. -/
def Reprintable : List Element → Prop
  | [] => True
  | e :: es => e.Reprintable ∧ Reprintable es

/-- Nothing that the branches of a selector need is lost when they are written. -/
def BranchesReprintable : List (Branch Element) → Prop
  | [] => True
  | ⟨_, value, _⟩ :: branches => Reprintable value ∧ BranchesReprintable branches

end

theorem branchesReprintable_iff {branches : List (Branch Element)} :
    BranchesReprintable branches ↔ ∀ b ∈ branches, Reprintable b.value := by
  induction branches with
  | nil => simp [BranchesReprintable]
  | cons b branches ih => rw [BranchesReprintable, ih, List.forall_mem_cons]

/-- Trees that are written faithfully at a nesting level. -/
structure Canonical (o : ParseOptions) (level : Nat) (inPlural : Bool)
    (elements : List Element) : Prop where
  wellFormed : WellFormedAt o level inPlural elements
  reprintable : Reprintable elements

end MessagePattern
