/-
# Messages

A message is read element by element until its scope ends it.  Nesting is
bounded by a budget: the text of a tag or branch is read with one less than its
surroundings, and with no budget left reading fails.  So the recursion is on the
budget, and inside one level on the number of scalars left, of which every
element takes at least one.

`parse` is the public entry point.
-/

import MessagePattern.Reader.Literal
import MessagePattern.Reader.Tag
import MessagePattern.Reader.Argument

namespace MessagePattern

/-- Reads one element, or finds that the text of this scope is over. -/
def readElement (inner : NestedReader) (o : ParseOptions) (s : Scope) (c : Cursor) :
    Except Failure (Option (Element × Cursor)) :=
  match c.rest with
  | [] => .ok none
  | ch :: text =>
    if ch = '{' then some <$> readArgument inner o s c
    else if ch = '}' ∧ s.nested then .ok none
    else if ch = '#' ∧ s.plural then
      let d := c.bump
      .ok (some (.pound (d.since c.position), d))
    else if ch = '<' ∧ !o.ignoreTag ∧ text.head? = some '/' then
      if s.inTag then .ok none else c.fail .unmatchedClosingTag c.here
    else if ch = '<' ∧ !o.ignoreTag ∧ text.head?.any isTagLetter then some <$> readTag inner s c
    else .ok (some (readLiteral o s c))

/-- Reads at most `bound` elements. -/
def readElements (inner : NestedReader) (o : ParseOptions) (s : Scope) :
    (bound : Nat) → Cursor → Except Failure (List Element × Cursor)
  | 0, c => .ok ([], c)
  | bound + 1, c => do
    match ← readElement inner o s c with
    | none => .ok ([], c)
    | some (e, d) =>
      let (es, d) ← readElements inner o s bound d
      .ok (e :: es, d)

/-- Reads the text of a scope, with `budget` levels of nesting left including its
own. -/
def readMessage (o : ParseOptions) : (budget : Nat) → NestedReader
  | 0, _, c => c.fail .exceededMaxNestingDepth c.here
  | budget + 1, s, c => readElements (readMessage o budget) o s c.rest.length c

/-- Reads a whole message and tells as well where the cursor came to rest. -/
def readAll (o : ParseOptions) (message : List Char) : Except Failure (List Element × Cursor) :=
  readMessage o (o.maxNestingDepth + 1) .top (.start message)

/-- A failure as the error of a message. -/
def Failure.toError (f : Failure) (message : String) : ParseError :=
  ⟨f.kind, message, f.location, f.cause⟩

/-- Reads a message into its elements. -/
def parse (message : String) (o : ParseOptions) : Except ParseError (List Element) :=
  match readAll o message.toList with
  | .ok (elements, _) => .ok elements
  | .error f => .error (f.toError message)

/-- Checks a message: it has to read without a fault, and its skeletons have to
be interpretable. -/
def validate (message : String) : Except ParseError Unit :=
  (fun _ => ()) <$> parse message { shouldParseSkeletons := true }

end MessagePattern
