/-
# Literal text

Literal text runs up to what the scope reads as syntax.  Two apostrophes in a row
are one apostrophe.  An apostrophe in front of a syntax character opens quoted
text, in which nothing is syntax until an apostrophe that stands alone, or until
the end of the message.  Any other apostrophe is itself.
-/

import MessagePattern.Reader.Basic
import MessagePattern.Element

namespace MessagePattern

/-- Whether an apostrophe in front of `c` opens quoted text. -/
def Scope.opensQuote (s : Scope) (c : Char) : Bool :=
  c == '{' || c == '}' || c == '<' || c == '>' || (c == '#' && s.plural)

/-- Whether literal text ends in front of `c`, the first scalar of the rest, when
`text` follows it. -/
def Scope.endsLiteral (o : ParseOptions) (s : Scope) (c : Char) (text : List Char) : Bool :=
  match c with
  | '{' => true
  | '}' => s.nested
  | '#' => s.plural
  | '<' => !o.ignoreTag && text.head?.any isTagStart
  | _ => false

/-- Reads literal text, starting inside or outside quoted text, and gives what it
says together with the number of scalars that it takes. -/
def literalText (o : ParseOptions) (s : Scope) : (quoted : Bool) → List Char → List Char × Nat
  | _, [] => ([], 0)
  | quoted, '\'' :: '\'' :: text =>
    let (said, n) := literalText o s quoted text
    ('\'' :: said, n + 2)
  | true, c :: text =>
    if c = '\'' then
      let (said, n) := literalText o s false text
      (said, n + 1)
    else
      let (said, n) := literalText o s true text
      (c :: said, n + 1)
  | false, c :: text =>
    if c = '\'' ∧ text.head?.any s.opensQuote then
      let (said, n) := literalText o s true text
      (said, n + 1)
    else if Scope.endsLiteral o s c text then ([], 0)
    else
      let (said, n) := literalText o s false text
      (c :: said, n + 1)

/-- Reads a literal. -/
def readLiteral (o : ParseOptions) (s : Scope) (c : Cursor) : Element × Cursor :=
  let (said, n) := literalText o s false c.rest
  let stop := c.advance n
  (.literal (String.ofList said) (stop.since c.position), stop)

end MessagePattern
