/-
# Styles of number, date and time arguments

A style runs up to the closing brace of its argument.  Braces inside it have to
match and quoted runs are passed over, and both stay part of the style.  A style
that begins with two colons is a skeleton; other styles are kept as text.
-/

import MessagePattern.Reader.Basic
import MessagePattern.Element
import MessagePattern.Skeleton.NumberStem

namespace MessagePattern

/-- Goes over a style, with `depth` braces open, `passed` scalars behind and, if
inside a quoted run, the number of scalars before it in `quote`.  Gives the
number of scalars before the closing brace of the argument or, if there is
none, of the whole text; fails with the start of a quoted run that does not
end. -/
def scanStyle (depth : Nat) (quote : Option Nat) (passed : Nat) : List Char → Except Nat Nat
  | [] =>
    match quote with
    | some start => .error start
    | none => .ok passed
  | c :: text =>
    match quote with
    | some start => scanStyle depth (if c = '\'' then none else some start) (passed + 1) text
    | none =>
      if c = '\'' then scanStyle depth (some (passed + 1)) (passed + 1) text
      else if c = '{' then scanStyle (depth + 1) none (passed + 1) text
      else if c = '}' then
        match depth with
        | 0 => .ok passed
        | depth + 1 => scanStyle depth none (passed + 1) text
      else scanStyle depth none (passed + 1) text

/-- Reads the text of a style, up to the closing brace of the argument. -/
def readStyleText (c : Cursor) : Except Failure (List Char × Cursor) :=
  match scanStyle 0 none 0 c.rest with
  | .ok n => .ok (c.rest.take n, c.advance n)
  | .error start =>
    let stop := c.advance c.rest.length
    stop.fail .unclosedQuoteInArgumentStyle (stop.since (c.advance start).position)

/-- A text without the white space at its end. -/
def trimEnd (text : List Char) : List Char :=
  (text.reverse.dropWhile isSpace).reverse

/-- A text without the white space at its start. -/
def trimStart (text : List Char) : List Char :=
  text.dropWhile isSpace

/-- Reads a style that has to say something, and gives it trimmed at the end but
located with its trailing white space. -/
def readStyle (c : Cursor) : Except Failure ((List Char × Location) × Cursor) := do
  let (text, stop) ← readStyleText c
  let style := trimEnd text
  if style.isEmpty then stop.fail .expectArgumentStyle stop.here
  else .ok ((style, stop.since c.position), stop)

/-- The skeleton of a style, if the style is one. -/
def skeletonText? : List Char → Option (List Char)
  | ':' :: ':' :: text => some (trimStart text)
  | _ => none

/-- Makes a number style of its text.  The cursor only tells where reading was
when a skeleton is refused. -/
def numberStyle (o : ParseOptions) (text : List Char) (location : Location) (c : Cursor) :
    Except Failure (Style NumberSkeleton) :=
  match skeletonText? text with
  | none => .ok (.text (String.ofList text))
  | some skeleton =>
    if skeleton.isEmpty then c.fail .expectNumberSkeleton location
    else
      match NumberSkeleton.tokenize skeleton with
      | .error e => c.failWith .invalidNumberSkeleton location e
      | .ok tokens =>
        if o.shouldParseSkeletons then
          match NumberSkeleton.interpret tokens with
          | .error e => c.failWith .other location e
          | .ok options => .ok (.skeleton ⟨tokens, location, some options⟩)
        else .ok (.skeleton ⟨tokens, location, none⟩)

/-- What kind of error a refused date-time skeleton is. -/
def dateTimeErrorKind : SkeletonError → ErrorKind
  | .unclosedQuote _ => .invalidDateTimeSkeleton
  | _ => .other

/-- Makes a date or time style of its text.  A skeleton without any text is
reported for the whole element. -/
def dateTimeStyle (o : ParseOptions) (text : List Char) (location element : Location)
    (c : Cursor) : Except Failure (Style DateTimeSkeleton) :=
  match skeletonText? text with
  | none => .ok (.text (String.ofList text))
  | some skeleton =>
    if skeleton.isEmpty then c.fail .expectDateTimeSkeleton element
    else if o.shouldParseSkeletons then
      match DateTimeSkeleton.interpret skeleton with
      | .error e => c.failWith (dateTimeErrorKind e) location e
      | .ok options => .ok (.skeleton ⟨String.ofList skeleton, location, some options⟩)
    else .ok (.skeleton ⟨String.ofList skeleton, location, none⟩)

end MessagePattern
