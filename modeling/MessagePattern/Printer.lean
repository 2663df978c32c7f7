/-
# Writing messages

A tree is written with the least layout and quoting that reads back: one space
behind each comma and between branches, apostrophes doubled, and in each literal
one quoted run from the first to the last character that would be read as
syntax.  A literal of the form `<name/>` is written as it is, since that is how
such a literal is read.
-/

import MessagePattern.Element
import MessagePattern.Decimal.Numeral

namespace MessagePattern

/-- Whether a text begins with a scalar that would be read as syntax.  Directly
inside a plural branch a number sign is syntax as well. -/
def opensSyntax (inPlural : Bool) : List Char → Bool
  | [] => false
  | c :: text =>
    c == '{' || c == '}' || (c == '#' && inPlural) || (c == '<' && text.head?.any isTagStart)

/-- Doubles every apostrophe. -/
def doubleApostrophes : List Char → List Char
  | [] => []
  | c :: text =>
    if c = '\'' then '\'' :: '\'' :: doubleApostrophes text else c :: doubleApostrophes text

/-- Splits a text in front of its first syntax character. -/
def splitBeforeSyntax (inPlural : Bool) : List Char → List Char × List Char
  | [] => ([], [])
  | c :: text =>
    if opensSyntax inPlural (c :: text) then ([], c :: text)
    else
      let (plain, rest) := splitBeforeSyntax inPlural text
      (c :: plain, rest)

/-- Splits a text behind its last syntax character. -/
def splitAfterSyntax (inPlural : Bool) : List Char → List Char × List Char
  | [] => ([], [])
  | c :: text =>
    match splitAfterSyntax inPlural text with
    | ([], rest) => if opensSyntax inPlural (c :: text) then ([c], rest) else ([], c :: rest)
    | (d :: run, rest) => (c :: d :: run, rest)

/-- Quotes the run of a text from its first to its last syntax character. -/
def quoteSyntax (inPlural : Bool) (text : List Char) : List Char :=
  let (plain, rest) := splitBeforeSyntax inPlural text
  match splitAfterSyntax inPlural rest with
  | ([], _) => text
  | (run, rest) => plain ++ '\'' :: (run ++ '\'' :: rest)

/-- Whether a text is a name of a tag. -/
def isTagName : List Char → Bool
  | [] => false
  | c :: text => isTagLetter c && text.all isTagNameChar

/-- Whether a text has the form `<name/>`. -/
def isSelfClosingTag : List Char → Bool
  | '<' :: text =>
    text.drop (text.length - 2) == ['/', '>'] && isTagName (text.take (text.length - 2))
  | _ => false

/-- Writes literal text. -/
def renderLiteral (inPlural : Bool) (text : List Char) : List Char :=
  if isSelfClosingTag text then text else quoteSyntax inPlural (doubleApostrophes text)

/-- Writes the style of a number argument. -/
def renderNumberStyle : Style NumberSkeleton → List Char
  | .text name => name.toList
  | .skeleton k => ':' :: ':' :: NumberSkeleton.renderTokens k.tokens

/-- Writes the style of a date or time argument. -/
def renderDateTimeStyle : Style DateTimeSkeleton → List Char
  | .text name => name.toList
  | .skeleton k => ':' :: ':' :: k.pattern.toList

/-- Writes the part of an argument behind its name: a type and a style. -/
def renderSimple (name type : String) (style : Option (List Char)) : List Char :=
  '{' :: (name.toList ++ ',' :: ' ' :: (type.toList
    ++ ((style.map fun text => ',' :: ' ' :: text).getD [] ++ ['}'])))

/-- Writes what stands in front of the branches: the type and, for a plural, an
offset that is not zero. -/
def renderSelectorKind : SelectorKind → List Char
  | .select => "select, ".toList
  | .plural type offset =>
    type.keyword.toList ++ ", ".toList
      ++ if offset = 0 then [] else "offset:".toList ++ (renderInteger offset ++ [' '])

mutual

/-- Writes an element. -/
def renderElement (inPlural : Bool) : Element → List Char
  | .literal text _ => renderLiteral inPlural text.toList
  | .argument name _ => '{' :: (name.toList ++ ['}'])
  | .number name style _ => renderSimple name "number" (style.map renderNumberStyle)
  | .dateTime kind name style _ => renderSimple name kind.keyword (style.map renderDateTimeStyle)
  | .selector kind name branches _ =>
    '{' :: (name.toList ++ ',' :: ' ' :: (renderSelectorKind kind
      ++ (renderBranches kind.isPlural branches ++ ['}'])))
  | .pound _ => ['#']
  | .tag name children _ =>
    '<' :: (name.toList ++ '>' :: (renderElements inPlural children
      ++ '<' :: '/' :: (name.toList ++ ['>'])))

/-- Writes elements one after the other. -/
def renderElements (inPlural : Bool) : List Element → List Char
  | [] => []
  | e :: es => renderElement inPlural e ++ renderElements inPlural es

/-- Writes branches with a space in between. -/
def renderBranches (inPlural : Bool) : List (Branch Element) → List Char
  | [] => []
  | ⟨selector, value, _⟩ :: branches =>
    selector.toList ++ '{' :: (renderElements inPlural value ++ '}' ::
      (if branches.isEmpty then [] else ' ' :: renderBranches inPlural branches))

end

/-- Writes a message. -/
def print (elements : List Element) : String :=
  String.ofList (renderElements false elements)

end MessagePattern
