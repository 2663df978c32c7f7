/-
# Tags

A tag is `<name>`, text, and `</name>`; white space may stand behind the name in
both.  The self-closing `<name/>` is literal text.  The text in between is read
by the reader that is handed in, so this module knows nothing of nesting.
-/

import MessagePattern.Reader.Basic
import MessagePattern.Element

namespace MessagePattern

/-- A reader of the text inside a tag or a branch. -/
abbrev NestedReader := Scope → Cursor → Except Failure (List Element × Cursor)

/-- Reads the closing tag that belongs to `name`. -/
def readClosingTag (name : String) (opening : Position) (c : Cursor) : Except Failure Cursor := do
  let closing := c.position
  let c ← c.expect ['<', '/'] .unclosedTag (c.since opening)
  if !c.rest.head?.any isTagLetter then c.fail .invalidTagName (c.since closing)
  else
    let (closingName, d) := c.tagName
    if closingName ≠ name then d.fail .unmatchedClosingTag (d.since c.position)
    else
      let d := d.skipSpace
      d.expect ['>'] .invalidTag (d.since closing)

/-- Reads a tag from its opening angle bracket on. -/
def readTag (inner : NestedReader) (s : Scope) (c : Cursor) :
    Except Failure (Element × Cursor) :=
  let opening := c.position
  let (name, c) := c.bump.tagName
  let c := c.skipSpace
  match c.skip? ['/', '>'] with
  | some c => .ok (.literal ("<" ++ name ++ "/>") (c.since opening), c)
  | none => do
    let c ← c.expect ['>'] .invalidTag (c.since opening)
    let (children, c) ← inner s.tagBody c
    let c ← readClosingTag name opening c
    .ok (.tag name children (c.since opening), c)

end MessagePattern
