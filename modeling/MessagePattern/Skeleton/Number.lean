/-
# Number skeletons

A number skeleton is a list of tokens separated by pattern white space; a token
is a stem with options, each behind a slash.  `tokenize` reads the tokens and
`renderTokens` writes them with one space in between.
-/

import MessagePattern.Text.CharClass
import MessagePattern.Text.Position
import MessagePattern.Skeleton.Error
import MessagePattern.Skeleton.NumberOptions

namespace MessagePattern

/-- One piece of a number skeleton, such as `currency/EUR`. -/
structure NumberToken where
  stem : String
  options : List String
  deriving DecidableEq

/-- A number style given as a skeleton. -/
structure NumberSkeleton where
  tokens : List NumberToken
  location : Location
  /-- What the tokens mean, if the reader was asked to find out. -/
  parsedOptions : Option NumberFormatOptions
  deriving DecidableEq

namespace NumberSkeleton

/-- Reads one piece without white space: what stands before the first slash is
the stem, and no option may be empty. -/
def tokenOfPiece (piece : List Char) : Except SkeletonError NumberToken :=
  let parts := piece.splitOn '/'
  let options := parts.drop 1
  if options.any List.isEmpty then .error (.emptyOption (String.ofList piece))
  else .ok ⟨String.ofList (parts.headD []), options.map String.ofList⟩

/-- The pieces of a text between white space. -/
def pieces (text : List Char) : List (List Char) :=
  (text.splitOnP isPatternSpace).filter (!·.isEmpty)

/-- Reads the tokens of a skeleton, of which there has to be one. -/
def tokenize (text : List Char) : Except SkeletonError (List NumberToken) := do
  let tokens ← (pieces text).mapM tokenOfPiece
  if tokens.isEmpty then .error .empty else .ok tokens

/-- The text of one token. -/
def renderToken (t : NumberToken) : List Char :=
  t.stem.toList ++ t.options.flatMap fun option => '/' :: option.toList

/-- The text of a list of tokens. -/
def renderTokens (tokens : List NumberToken) : List Char :=
  [' '].intercalate (tokens.map renderToken)

end NumberSkeleton

end MessagePattern
