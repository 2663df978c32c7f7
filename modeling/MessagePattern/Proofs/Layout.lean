/-
# Laying out arguments

White space may stand between the parts of an argument.  A `Layout` of an element
chooses it for every place there is: behind the opening brace, the name, each comma
and the type, behind a style, around the value of an offset, behind each selector
and behind the closing brace of each branch, for the element and for all arguments
nested in it.  Literals and tags are laid out as they are written otherwise.

Three classes of white space meet here.  What may stand between parts is pattern
white space, but a word ends and a style is trimmed at white space in the wider
sense.  The two directional marks are of the first class and not of the second, so
behind a word they are taken for a part of it, and behind a style they stay.
A layout is `Neat` if no mark stands where that happens.
-/

import MessagePattern.Proofs.NestedRecovery

namespace MessagePattern

/-! ## White space in one place -/

/-- The left-to-right and the right-to-left mark. -/
def isMark (c : Char) : Bool := c == '\u200e' || c == '\u200f'

/-- Pattern white space, or none, in one place of an argument. -/
structure Gap where
  chars : List Char
  space : chars.all isPatternSpace = true

/-- The gap does not run into a word in front of it. -/
def Gap.Parts (g : Gap) : Prop := g.chars.head?.any isMark = false

/-- The gap is trimmed off a text in front of it. -/
def Gap.Trims (g : Gap) : Prop := g.chars.any isMark = false

/-! ## Layouts -/

/-- The gaps of an argument up to and with the one behind its type. -/
structure HeadLayout where
  behindBrace : Gap
  behindName : Gap
  behindComma : Gap
  behindType : Gap

mutual

/-- The gaps of an element.  Those around a style or an offset that the element does
not have are not used. -/
inductive Layout : Element → Type
  | literal {text : String} {location : Location} : Layout (.literal text location)
  | argument {name : String} {location : Location} (behindBrace behindName : Gap) :
      Layout (.argument name location)
  | number {name : String} {style : Option (Style NumberSkeleton)} {location : Location}
      (head : HeadLayout) (behindComma behindStyle : Gap) : Layout (.number name style location)
  | dateTime {kind : DateTimeKind} {name : String} {style : Option (Style DateTimeSkeleton)}
      {location : Location} (head : HeadLayout) (behindComma behindStyle : Gap) :
      Layout (.dateTime kind name style location)
  | selector {kind : SelectorKind} {name : String} {branches : List (Branch Element)}
      {location : Location} (head : HeadLayout) (behindComma behindColon behindOffset : Gap)
      (apart : behindOffset.chars ≠ []) (branchLayouts : BranchLayouts branches) :
      Layout (.selector kind name branches location)
  | pound {location : Location} : Layout (.pound location)
  | tag {name : String} {children : List Element} {location : Location}
      (childLayouts : Layouts children) : Layout (.tag name children location)

/-- The gaps of every element of a list. -/
inductive Layouts : List Element → Type
  | nil : Layouts []
  | cons {e : Element} {es : List Element} (first : Layout e) (rest : Layouts es) :
      Layouts (e :: es)

/-- The gaps behind the selectors and the closing braces of branches, and those in
them. -/
inductive BranchLayouts : List (Branch Element) → Type
  | nil : BranchLayouts []
  | cons {selector : String} {value : List Element} {location : Location}
      {branches : List (Branch Element)} (behindSelector behindBranch : Gap)
      (valueLayouts : Layouts value) (rest : BranchLayouts branches) :
      BranchLayouts (⟨selector, value, location⟩ :: branches)

end

/-- An argument up to and with its type. -/
def HeadLayout.text (head : HeadLayout) (name type : String) : List Char :=
  '{' :: (head.behindBrace.chars ++ (name.toList ++ (head.behindName.chars ++
    ',' :: (head.behindComma.chars ++ (type.toList ++ head.behindType.chars)))))

/-- A style behind its comma, if there is one. -/
def layoutStyle (behindComma behindStyle : Gap) : Option (List Char) → List Char
  | none => []
  | some style => ',' :: (behindComma.chars ++ (style ++ behindStyle.chars))

/-- The offset of a plural, which zero is not written as. -/
def layoutOffset (behindColon behindOffset : Gap) : SelectorKind → List Char
  | .plural _ offset =>
    if offset = 0 then []
    else "offset:".toList ++ (behindColon.chars ++ (renderInteger offset ++ behindOffset.chars))
  | .select => []

mutual

/-- What an element is laid out as. -/
def Layout.text (inPlural : Bool) : {e : Element} → Layout e → List Char
  | .literal text _, .literal => renderLiteral inPlural text.toList
  | .argument name _, .argument behindBrace behindName =>
    '{' :: (behindBrace.chars ++ (name.toList ++ (behindName.chars ++ ['}'])))
  | .number name style _, .number head behindComma behindStyle =>
    head.text name "number" ++
      (layoutStyle behindComma behindStyle (style.map renderNumberStyle) ++ ['}'])
  | .dateTime kind name style _, .dateTime head behindComma behindStyle =>
    head.text name kind.keyword ++
      (layoutStyle behindComma behindStyle (style.map renderDateTimeStyle) ++ ['}'])
  | .selector kind name _ _, .selector head behindComma behindColon behindOffset _ branches =>
    head.text name kind.keyword ++ ',' :: (behindComma.chars ++
      (layoutOffset behindColon behindOffset kind ++ (branches.text kind.isPlural ++ ['}'])))
  | .pound _, .pound => ['#']
  | .tag name _ _, .tag children =>
    '<' :: (name.toList ++ '>' :: (children.text inPlural ++
      '<' :: '/' :: (name.toList ++ ['>'])))

/-- What elements are laid out as, one after the other. -/
def Layouts.text (inPlural : Bool) : {es : List Element} → Layouts es → List Char
  | [], .nil => []
  | _ :: _, .cons first rest => first.text inPlural ++ rest.text inPlural

/-- What branches are laid out as, one after the other. -/
def BranchLayouts.text (inPlural : Bool) :
    {branches : List (Branch Element)} → BranchLayouts branches → List Char
  | [], .nil => []
  | ⟨selector, _, _⟩ :: _, .cons behindSelector behindBranch value rest =>
    selector.toList ++ (behindSelector.chars ++ '{' :: (value.text inPlural ++
      '}' :: (behindBranch.chars ++ rest.text inPlural)))

end

/-- No mark is taken for a part of the name or of the type. -/
structure HeadLayout.Neat (head : HeadLayout) : Prop where
  behindName : head.behindName.Parts
  behindType : head.behindType.Parts

mutual

/-- No mark in the layout of an element is taken for a part of a word or a style.
The tokens of a number skeleton may be followed by marks, since they are told apart
by pattern white space. -/
def Layout.Neat : {e : Element} → Layout e → Prop
  | _, .literal => True
  | _, .argument _ behindName => behindName.Parts
  | .number _ style _, .number head _ behindStyle =>
    head.Neat ∧ ∀ name, style = some (.text name) → behindStyle.Trims
  | .dateTime _ _ style _, .dateTime head _ behindStyle =>
    head.Neat ∧ ∀ k, style = some k → behindStyle.Trims
  | _, .selector head _ _ _ _ branches => head.Neat ∧ branches.Neat
  | _, .pound => True
  | _, .tag children => children.Neat

/-- The same for the layouts of all elements of a list. -/
def Layouts.Neat : {es : List Element} → Layouts es → Prop
  | _, .nil => True
  | _, .cons first rest => first.Neat ∧ rest.Neat

/-- The same for the layouts of branches, whose selectors are words or exact. -/
def BranchLayouts.Neat : {branches : List (Branch Element)} → BranchLayouts branches → Prop
  | _, .nil => True
  | ⟨selector, _, _⟩ :: _, .cons behindSelector _ value rest =>
    ((isIdentifier selector.toList = true → behindSelector.Parts) ∧ value.Neat) ∧ rest.Neat

end

end MessagePattern
