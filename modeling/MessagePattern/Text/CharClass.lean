/-
# Character classes of the message grammar

Two Unicode properties are fixed by stability policy and given here as tables of
code point ranges: `Pattern_White_Space`, which may stand between the parts of
an argument, and `Pattern_Syntax`, which may not occur in a name.  `White_Space`
is a third, different set: it bounds names and is trimmed from styles.

The classes overlap.  The left-to-right and right-to-left marks are
`Pattern_White_Space` without being `White_Space`, so they are skipped between
parts and still belong to names.
-/

namespace MessagePattern

namespace CharClass

/-- Whether a code point lies in one of the inclusive ranges. -/
def within (ranges : List (Nat × Nat)) (n : Nat) : Bool :=
  ranges.any fun (low, high) => low ≤ n && n ≤ high

/-- Unicode `Pattern_White_Space`. -/
def patternWhiteSpace : List (Nat × Nat) :=
  [(0x09, 0x0D), (0x20, 0x20), (0x85, 0x85), (0x200E, 0x200F), (0x2028, 0x2029)]

/-- Unicode `White_Space`. -/
def whiteSpace : List (Nat × Nat) :=
  [(0x09, 0x0D), (0x20, 0x20), (0x85, 0x85), (0xA0, 0xA0), (0x1680, 0x1680),
    (0x2000, 0x200A), (0x2028, 0x2029), (0x202F, 0x202F), (0x205F, 0x205F), (0x3000, 0x3000)]

/-- Unicode `Pattern_Syntax`. -/
def patternSyntax : List (Nat × Nat) :=
  [(0x21, 0x2F), (0x3A, 0x40), (0x5B, 0x5E), (0x60, 0x60), (0x7B, 0x7E), (0xA1, 0xA7),
    (0xA9, 0xA9), (0xAB, 0xAC), (0xAE, 0xAE), (0xB0, 0xB1), (0xB6, 0xB6), (0xBB, 0xBB),
    (0xBF, 0xBF), (0xD7, 0xD7), (0xF7, 0xF7), (0x2010, 0x2027), (0x2030, 0x203E),
    (0x2041, 0x2053), (0x2055, 0x205E), (0x2190, 0x245F), (0x2500, 0x2775), (0x2794, 0x2BFF),
    (0x2E00, 0x2E7F), (0x3001, 0x3003), (0x3008, 0x3020), (0x3030, 0x3030), (0xFD3E, 0xFD3F),
    (0xFE45, 0xFE46)]

/-- The scalars that may follow the first letter of a tag name: those of an XML
name except the colon. -/
def tagName : List (Nat × Nat) :=
  [(0x2D, 0x2E), (0x30, 0x39), (0x41, 0x5A), (0x5F, 0x5F), (0x61, 0x7A), (0xB7, 0xB7),
    (0xC0, 0xD6), (0xD8, 0xF6), (0xF8, 0x37D), (0x37F, 0x1FFF), (0x200C, 0x200D),
    (0x203F, 0x2040), (0x2070, 0x218F), (0x2C00, 0x2FEF), (0x3001, 0xD7FF), (0xF900, 0xFDCF),
    (0xFDF0, 0xFFFD), (0x10000, 0xEFFFF)]

end CharClass

open CharClass

/-- ASCII letters: a tag opens only where one of these follows the angle
bracket. -/
def isTagLetter (c : Char) : Bool := c.isAlpha

/-- What makes a preceding angle bracket syntax: a letter opens a tag and a
slash closes one. -/
def isTagStart (c : Char) : Bool := isTagLetter c || c == '/'

/-- White space between the parts of an argument or of a number skeleton. -/
def isPatternSpace (c : Char) : Bool := within patternWhiteSpace c.toNat

/-- White space in the wider sense, which ends a name and is trimmed from a
style. -/
def isSpace (c : Char) : Bool := within whiteSpace c.toNat

/-- Characters reserved for syntax. -/
def isPatternSyntax (c : Char) : Bool := within patternSyntax c.toNat

/-- The scalars of argument names, argument types and selectors. -/
def isIdentifierChar (c : Char) : Bool := !isSpace c && !isPatternSyntax c

/-- The scalars of a tag name after its first letter. -/
def isTagNameChar (c : Char) : Bool := within tagName c.toNat

namespace CharClass

/-- All classes of a scalar in one number, one bit for each class. -/
def mask (c : Char) : Nat :=
  (if isTagLetter c then 1 else 0) + (if isTagStart c then 2 else 0)
    + (if isPatternSpace c then 4 else 0) + (if isPatternSyntax c then 8 else 0)
    + (if isIdentifierChar c then 16 else 0) + (if isTagNameChar c then 32 else 0)

/-- A maximal run of neighbouring code points that have the same classes. -/
structure Run where
  first : Nat
  last : Nat
  mask : Nat
  deriving DecidableEq

/-- Puts one more code point behind the runs found so far, the latest run
first: it extends that run if it is the next code point and has the same
classes. -/
def Run.extend (runs : List Run) (n mask : Nat) : List Run :=
  match runs with
  | [] => [⟨n, n, mask⟩]
  | r :: earlier =>
    if r.last + 1 = n ∧ r.mask = mask then ⟨r.first, n, mask⟩ :: earlier
    else ⟨n, n, mask⟩ :: r :: earlier

/-- Goes over `count` code points from `n` on and leaves out the surrogates,
which are no scalars. -/
def runsFrom (n : Nat) (runs : List Run) : (count : Nat) → List Run
  | 0 => runs.reverse
  | count + 1 =>
    let runs :=
      if n.isValidChar then Run.extend runs n (mask (Char.ofNat n)) else runs
    runsFrom (n + 1) runs count

/-- The scalars from `first` to `last`, both included, as maximal runs of equal
classes.  A run never spans the surrogates. -/
def runs (first last : Nat) : List Run :=
  runsFrom first [] (last + 1 - first)

end CharClass

end MessagePattern
