/-
# The meaning of number skeleton tokens

A number skeleton is interpreted token by token, from left to right.
`NumberToken.applyTo` says what a token does to the options that the tokens in
front of it have left.  A keyword writes fields of its own.  Other stems are told
by their form, tried in this order: integer width such as `000`, fraction
precision such as `.00##`, significant digits such as `@@#`, and last sign
display and concise notation such as `EE+!00`.  A stem that fits nothing changes
nothing, and the first bad token ends the interpretation.

The readers of stems and options take a text apart at its runs of one character.
Each names the pattern that it stands for, whose groups are these runs.
-/

import MessagePattern.Skeleton.Number

namespace MessagePattern

namespace NumberSkeleton

/-! ## Stems and options taken apart -/

/-- Whether a text is one or more copies of a character: the pattern `^0+$`, if the
character is `0`. -/
def isRunOf (d : Char) (text : List Char) : Bool :=
  !text.isEmpty && text.all (· == d)

/-- A unit without its category: `length-meter` is the unit `meter`. -/
def unitName (unit : List Char) : List Char :=
  if unit.contains '-' then (unit.dropWhile (· != '-')).drop 1 else unit

/-- What an integer width asks for. -/
inductive IntegerWidth
  /-- At least so many digits, as in `*000`. -/
  | least (digits : Nat)
  /-- At most so many digits, as in `##00`. -/
  | most
  /-- Exactly so many digits, as in `000`. -/
  | exact

/-- Reads an integer width: the pattern `^(?:\*(0+)|(#+)(0+)|(0+))$`. -/
def integerWidth? : List Char → Option IntegerWidth
  | '*' :: zeros => if isRunOf '0' zeros then some (.least zeros.length) else none
  | text =>
    if isRunOf '0' text then some .exact
    else if text.head? = some '#' ∧ isRunOf '0' (text.dropWhile (· == '#')) then some .most
    else none

/-- The bounds on fraction digits that a stem such as `.00`, `.00*`, `.##` or
`.00##` gives: zeros are obligatory digits, number signs optional ones, and a
star or plus sign takes the upper bound away.  The pattern is
`^\.(?:(0+)([*+])?|(#+)|(0+)(#+))$`. -/
def fractionDigits? : List Char → Option (Nat × Option Nat)
  | '.' :: text =>
    let zeros := (text.takeWhile (· == '0')).length
    let rest := text.dropWhile (· == '0')
    if isRunOf '#' rest then some (zeros, some (zeros + rest.length))
    else if zeros = 0 then none
    else if rest = [] then some (zeros, some zeros)
    else if rest = ['*'] ∨ rest = ['+'] then some (zeros, none)
    else none
  | _ => none

/-- What a significant-digits pattern asks for. -/
structure SignificantDigits where
  least : Nat
  most : Option Nat
  priority : Option RoundingPriority

/-- What the letter behind a significant-digits pattern says about priority: the
group `([rs])?` at its end. -/
def priority? : List Char → Option (Option RoundingPriority)
  | [] => some none
  | ['r'] => some (some .morePrecision)
  | ['s'] => some (some .lessPrecision)
  | _ => none

/-- Reads a significant-digits pattern such as `@@@`, `@@+` or `@@#r`: at signs are
obligatory digits, number signs optional ones, and a plus sign takes the upper
bound away.  The pattern is `^(@+)(\+|#+)?([rs])?$`. -/
def significantDigits? (text : List Char) : Option SignificantDigits :=
  let least := (text.takeWhile (· == '@')).length
  if least = 0 then none
  else
    let rest := text.dropWhile (· == '@')
    let (most, rest) :=
      match rest with
      | '+' :: rest => (none, rest)
      | _ => (some (least + (rest.takeWhile (· == '#')).length), rest.dropWhile (· == '#'))
    (priority? rest).map (⟨least, most, ·⟩)

/-- What a word says about signs. -/
structure SignOptions where
  signDisplay : Option SignDisplay := none
  currencySign : Option CurrencySign := none
  deriving DecidableEq

/-- The words for sign display, which are stems as well as options of the two
exponent stems. -/
def signWords : List (String × SignOptions) :=
  [("sign-auto", { signDisplay := some .auto }),
    ("sign-accounting", { currencySign := some .accounting }),
    ("()", { currencySign := some .accounting }),
    ("sign-always", { signDisplay := some .always }),
    ("+!", { signDisplay := some .always }),
    ("sign-accounting-always",
      { signDisplay := some .always, currencySign := some .accounting }),
    ("()!", { signDisplay := some .always, currencySign := some .accounting }),
    ("sign-except-zero", { signDisplay := some .exceptZero }),
    ("+?", { signDisplay := some .exceptZero }),
    ("sign-accounting-except-zero",
      { signDisplay := some .exceptZero, currencySign := some .accounting }),
    ("()?", { signDisplay := some .exceptZero, currencySign := some .accounting }),
    ("sign-negative", { signDisplay := some .negative }),
    ("+-", { signDisplay := some .negative }),
    ("sign-never", { signDisplay := some .never }),
    ("+_", { signDisplay := some .never })]

/-- What a concise notation asks for. -/
structure ConciseNotation where
  form : NumberNotation
  signDisplay : Option SignDisplay
  digits : Nat

/-- Takes the mark of a sign display off the digits of a concise notation. -/
def splitConciseSign : List Char → Option SignDisplay × List Char
  | '+' :: '!' :: digits => (some .always, digits)
  | '+' :: '?' :: digits => (some .exceptZero, digits)
  | digits => (none, digits)

/-- Takes the letters of a concise notation off the front of a stem. -/
def splitConciseLetters : List Char → Option (NumberNotation × List Char)
  | 'E' :: 'E' :: rest => some (.engineering, rest)
  | 'E' :: rest => some (.scientific, rest)
  | _ => none

/-- Reads a concise notation such as `E0` or `EE+!00`.  Stems that do not begin with
its letter are none, and those that do have to go on as one. -/
def conciseNotation? (stem : String) : Except SkeletonError (Option ConciseNotation) :=
  match splitConciseLetters stem.toList with
  | none => .ok none
  | some (form, rest) =>
    let (sign, digits) := splitConciseSign rest
    if isRunOf '0' digits then .ok (some ⟨form, sign, digits.length⟩)
    else .error (.malformedNotation stem)

/-! ## What is written into the options -/

/-- Writes the bounds on significant digits, and the priority if there is one. -/
def SignificantDigits.applyTo (k : SignificantDigits) (r : NumberFormatOptions) :
    NumberFormatOptions :=
  let r := { r with minimumSignificantDigits := some k.least }
  let r := if k.most.isSome then { r with maximumSignificantDigits := k.most } else r
  if k.priority.isSome then { r with roundingPriority := k.priority } else r

/-- Writes what is said about signs. -/
def SignOptions.applyTo (k : SignOptions) (r : NumberFormatOptions) : NumberFormatOptions :=
  let r := if k.signDisplay.isSome then { r with signDisplay := k.signDisplay } else r
  if k.currencySign.isSome then { r with currencySign := k.currencySign } else r

/-- Writes what a concise notation asks for. -/
def ConciseNotation.applyTo (k : ConciseNotation) (r : NumberFormatOptions) :
    NumberFormatOptions :=
  let r := { r with numberNotation := some k.form }
  let r := if k.signDisplay.isSome then { r with signDisplay := k.signDisplay } else r
  { r with minimumIntegerDigits := some k.digits }

/-- Writes what a word says about signs.  Other words say nothing. -/
def applySign (r : NumberFormatOptions) (word : String) : NumberFormatOptions :=
  match signWords.lookup word with
  | some sign => sign.applyTo r
  | none => r

end NumberSkeleton

namespace NumberToken

open NumberSkeleton

/-- The first option, which has to be there. -/
def requiredOption (t : NumberToken) : Except SkeletonError String :=
  match t.options with
  | [] => .error (.missingOption t.stem)
  | option :: _ => .ok option

/-- The only option, if there is one. -/
def singleOption? (t : NumberToken) : Except SkeletonError (Option String) :=
  match t.options with
  | [] => .ok none
  | [option] => .ok (some option)
  | options => .error (.tooManyOptions t.stem options.length)

/-- Applies a scale, which has to be a finite number. -/
def applyScale (t : NumberToken) (r : NumberFormatOptions) :
    Except SkeletonError NumberFormatOptions := do
  let factor ← t.requiredOption
  match Binary64.read? factor.toList with
  | some scale => return { r with scale := some scale }
  | none => .error (.invalidOption t.stem factor .notFinite)

/-- Applies an integer width.  Only a star followed by zeros can be expressed; the
other known forms are refused with a reason of their own. -/
def applyIntegerWidth (t : NumberToken) (r : NumberFormatOptions) :
    Except SkeletonError NumberFormatOptions := do
  match ← t.singleOption? with
  | none => .error (.missingOption t.stem)
  | some option =>
    match integerWidth? option.toList with
    | some (.least digits) => return { r with minimumIntegerDigits := some digits }
    | some .most => .error (.invalidOption t.stem option .maximumIntegerDigits)
    | some .exact => .error (.invalidOption t.stem option .exactIntegerDigits)
    | none => .error (.invalidOption t.stem option .notIntegerWidth)

/-- Applies an exponent stem: its notation, and what its options say about signs, one
after the other. -/
def applyExponent (t : NumberToken) (form : NumberNotation) (r : NumberFormatOptions) :
    NumberFormatOptions :=
  t.options.foldl applySign { r with numberNotation := some form }

/-- Applies a fraction stem that gives these bounds.  As its option, `w` strips the
fraction of an integer, and a significant-digits pattern is read as such a stem
is. -/
def applyFraction (t : NumberToken) (least : Nat) (most : Option Nat)
    (r : NumberFormatOptions) : Except SkeletonError NumberFormatOptions := do
  let option? ← t.singleOption?
  let r := { r with minimumFractionDigits := some least }
  let r := if most.isSome then { r with maximumFractionDigits := most } else r
  match option? with
  | none => return r
  | some option =>
    if option = "w" then return { r with trailingZeroDisplay := some .stripIfInteger }
    else
      match significantDigits? option.toList with
      | some digits => return digits.applyTo r
      | none => .error (.invalidOption t.stem option .notFractionSuffix)

/-- Applies a token whose stem is a keyword, if it is one. -/
def applyKeyword (t : NumberToken) (r : NumberFormatOptions) :
    Option (Except SkeletonError NumberFormatOptions) :=
  match t.stem with
  | "percent" | "%" => some (.ok { r with style := some .percent })
  | "%x100" => some (.ok { r with style := some .percent, scale := some (.ofInt 100) })
  | "currency" => some do
    let r := { r with style := some .currency }
    let code ← t.requiredOption
    return { r with currency := some code }
  | "measure-unit" | "unit" => some do
    let r := { r with style := some .unit }
    let unit ← t.requiredOption
    return { r with unit := some (String.ofList (unitName unit.toList)) }
  | "group-off" | ",_" => some (.ok { r with useGrouping := some (.enabled false) })
  | "group-min2" | ",?" => some (.ok { r with useGrouping := some (.mode .min2) })
  | "group-auto" => some (.ok { r with useGrouping := some (.mode .auto) })
  | "group-on-aligned" | ",!" | "group-thousands" | ",=" =>
    some (.ok { r with useGrouping := some (.mode .always) })
  | "precision-integer" | "." => some (.ok { r with maximumFractionDigits := some 0 })
  | "compact-short" | "K" =>
    some (.ok { r with numberNotation := some .compact, compactDisplay := some .short })
  | "compact-long" | "KK" =>
    some (.ok { r with numberNotation := some .compact, compactDisplay := some .long })
  | "scientific" => some (.ok (t.applyExponent .scientific r))
  | "engineering" => some (.ok (t.applyExponent .engineering r))
  | "notation-simple" => some (.ok { r with numberNotation := some .standard })
  | "unit-width-narrow" =>
    some (.ok { r with currencyDisplay := some .narrowSymbol, unitDisplay := some .narrow })
  | "unit-width-short" =>
    some (.ok { r with currencyDisplay := some .symbol, unitDisplay := some .short })
  | "unit-width-full-name" =>
    some (.ok { r with currencyDisplay := some .name, unitDisplay := some .long })
  | "unit-width-iso-code" => some (.ok { r with currencyDisplay := some .code })
  | "scale" => some (t.applyScale r)
  | "rounding-mode-floor" => some (.ok { r with roundingMode := some .floor })
  | "rounding-mode-ceiling" => some (.ok { r with roundingMode := some .ceil })
  | "rounding-mode-down" => some (.ok { r with roundingMode := some .trunc })
  | "rounding-mode-up" => some (.ok { r with roundingMode := some .expand })
  | "rounding-mode-half-even" => some (.ok { r with roundingMode := some .halfEven })
  | "rounding-mode-half-down" => some (.ok { r with roundingMode := some .halfTrunc })
  | "rounding-mode-half-up" => some (.ok { r with roundingMode := some .halfExpand })
  | "rounding-mode-half-ceiling" => some (.ok { r with roundingMode := some .halfCeil })
  | "rounding-mode-half-floor" => some (.ok { r with roundingMode := some .halfFloor })
  | "integer-width" => some (t.applyIntegerWidth r)
  | _ => none

/-- Applies a token whose stem is recognised by its form.  A word for sign display is
looked at as a concise notation as well. -/
def applyForm (t : NumberToken) (r : NumberFormatOptions) :
    Except SkeletonError NumberFormatOptions :=
  let stem := t.stem.toList
  if isRunOf '0' stem then .ok { r with minimumIntegerDigits := some stem.length }
  else
    match fractionDigits? stem with
    | some (least, most) => t.applyFraction least most r
    | none =>
      match significantDigits? stem with
      | some digits => .ok (digits.applyTo r)
      | none => do
        let r := applySign r t.stem
        match ← conciseNotation? t.stem with
        | some concise => return concise.applyTo r
        | none => return r

/-- What a token makes of the options that are set in front of it. -/
def applyTo (t : NumberToken) (r : NumberFormatOptions) :
    Except SkeletonError NumberFormatOptions :=
  (t.applyKeyword r).getD (t.applyForm r)

end NumberToken

namespace NumberSkeleton

/-- The options that a list of tokens sets, each token going on from those in front
of it; the first token that is refused decides the error. -/
def interpret (tokens : List NumberToken) : Except SkeletonError NumberFormatOptions :=
  tokens.foldlM (fun r t => t.applyTo r) {}

end NumberSkeleton

end MessagePattern
