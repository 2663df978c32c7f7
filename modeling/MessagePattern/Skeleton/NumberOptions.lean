/-
# Number format options

The record that a number skeleton is interpreted into.  Every field may be left
unset, and `NumberFormatOptions.override` lays one record over another: a field
that the upper record sets wins.
-/

import MessagePattern.Keyword
import MessagePattern.Decimal.Binary64

namespace MessagePattern

/-- What kind of quantity is formatted. -/
inductive NumberStyle
  | decimal
  | percent
  | currency
  | unit
  deriving DecidableEq

/-- How the magnitude is expressed. -/
inductive NumberNotation
  | standard
  | scientific
  | engineering
  | compact
  deriving DecidableEq

/-- How wide a compact magnitude is written. -/
inductive CompactDisplay
  | short
  | long
  deriving DecidableEq

/-- How a currency is named. -/
inductive CurrencyDisplay
  | symbol
  | narrowSymbol
  | code
  | name
  deriving DecidableEq

/-- How a negative amount of money is marked. -/
inductive CurrencySign
  | standard
  | accounting
  deriving DecidableEq

/-- How wide a unit is written. -/
inductive UnitDisplay
  | short
  | narrow
  | long
  deriving DecidableEq

/-- When a sign is written. -/
inductive SignDisplay
  | auto
  | always
  | exceptZero
  | negative
  | never
  deriving DecidableEq

/-- Where grouping separators are written. -/
inductive GroupingMode
  | always
  | auto
  | min2
  deriving DecidableEq

/-- Grouping is switched on or off, or follows a mode. -/
inductive Grouping
  | enabled (on : Bool)
  | mode (m : GroupingMode)
  deriving DecidableEq

/-- Which neighbour a number is rounded to. -/
inductive RoundingMode
  | ceil
  | floor
  | expand
  | trunc
  | halfCeil
  | halfFloor
  | halfExpand
  | halfTrunc
  | halfEven
  deriving DecidableEq

/-- Which of two digit bounds wins when both are set. -/
inductive RoundingPriority
  | auto
  | morePrecision
  | lessPrecision
  deriving DecidableEq

/-- Whether the fraction of an integer is dropped. -/
inductive TrailingZeroDisplay
  | auto
  | stripIfInteger
  deriving DecidableEq

instance : Keyword NumberStyle where
  all := [.decimal, .percent, .currency, .unit]
  word
    | .decimal => "decimal"
    | .percent => "percent"
    | .currency => "currency"
    | .unit => "unit"
  find_word a := by cases a <;> decide

instance : Keyword NumberNotation where
  all := [.standard, .scientific, .engineering, .compact]
  word
    | .standard => "standard"
    | .scientific => "scientific"
    | .engineering => "engineering"
    | .compact => "compact"
  find_word a := by cases a <;> decide

instance : Keyword CompactDisplay where
  all := [.short, .long]
  word
    | .short => "short"
    | .long => "long"
  find_word a := by cases a <;> decide

instance : Keyword CurrencyDisplay where
  all := [.symbol, .narrowSymbol, .code, .name]
  word
    | .symbol => "symbol"
    | .narrowSymbol => "narrowSymbol"
    | .code => "code"
    | .name => "name"
  find_word a := by cases a <;> decide

instance : Keyword CurrencySign where
  all := [.standard, .accounting]
  word
    | .standard => "standard"
    | .accounting => "accounting"
  find_word a := by cases a <;> decide

instance : Keyword UnitDisplay where
  all := [.short, .narrow, .long]
  word
    | .short => "short"
    | .narrow => "narrow"
    | .long => "long"
  find_word a := by cases a <;> decide

instance : Keyword SignDisplay where
  all := [.auto, .always, .exceptZero, .negative, .never]
  word
    | .auto => "auto"
    | .always => "always"
    | .exceptZero => "exceptZero"
    | .negative => "negative"
    | .never => "never"
  find_word a := by cases a <;> decide

instance : Keyword GroupingMode where
  all := [.always, .auto, .min2]
  word
    | .always => "always"
    | .auto => "auto"
    | .min2 => "min2"
  find_word a := by cases a <;> decide

instance : Keyword RoundingMode where
  all := [.ceil, .floor, .expand, .trunc, .halfCeil, .halfFloor, .halfExpand, .halfTrunc, .halfEven]
  word
    | .ceil => "ceil"
    | .floor => "floor"
    | .expand => "expand"
    | .trunc => "trunc"
    | .halfCeil => "halfCeil"
    | .halfFloor => "halfFloor"
    | .halfExpand => "halfExpand"
    | .halfTrunc => "halfTrunc"
    | .halfEven => "halfEven"
  find_word a := by cases a <;> decide

instance : Keyword RoundingPriority where
  all := [.auto, .morePrecision, .lessPrecision]
  word
    | .auto => "auto"
    | .morePrecision => "morePrecision"
    | .lessPrecision => "lessPrecision"
  find_word a := by cases a <;> decide

instance : Keyword TrailingZeroDisplay where
  all := [.auto, .stripIfInteger]
  word
    | .auto => "auto"
    | .stripIfInteger => "stripIfInteger"
  find_word a := by cases a <;> decide

/-- What a number skeleton asks of the formatter. -/
structure NumberFormatOptions where
  style : Option NumberStyle := none
  currency : Option String := none
  currencyDisplay : Option CurrencyDisplay := none
  currencySign : Option CurrencySign := none
  unit : Option String := none
  unitDisplay : Option UnitDisplay := none
  useGrouping : Option Grouping := none
  numberNotation : Option NumberNotation := none
  compactDisplay : Option CompactDisplay := none
  signDisplay : Option SignDisplay := none
  scale : Option Binary64 := none
  minimumIntegerDigits : Option Nat := none
  minimumFractionDigits : Option Nat := none
  maximumFractionDigits : Option Nat := none
  minimumSignificantDigits : Option Nat := none
  maximumSignificantDigits : Option Nat := none
  roundingPriority : Option RoundingPriority := none
  roundingMode : Option RoundingMode := none
  trailingZeroDisplay : Option TrailingZeroDisplay := none
  deriving DecidableEq

/-- Lays the settings `b` over the settings `a`: a field keeps the value of `a`
only where `b` leaves it unset. -/
def NumberFormatOptions.override (a b : NumberFormatOptions) : NumberFormatOptions where
  style := b.style.or a.style
  currency := b.currency.or a.currency
  currencyDisplay := b.currencyDisplay.or a.currencyDisplay
  currencySign := b.currencySign.or a.currencySign
  unit := b.unit.or a.unit
  unitDisplay := b.unitDisplay.or a.unitDisplay
  useGrouping := b.useGrouping.or a.useGrouping
  numberNotation := b.numberNotation.or a.numberNotation
  compactDisplay := b.compactDisplay.or a.compactDisplay
  signDisplay := b.signDisplay.or a.signDisplay
  scale := b.scale.or a.scale
  minimumIntegerDigits := b.minimumIntegerDigits.or a.minimumIntegerDigits
  minimumFractionDigits := b.minimumFractionDigits.or a.minimumFractionDigits
  maximumFractionDigits := b.maximumFractionDigits.or a.maximumFractionDigits
  minimumSignificantDigits := b.minimumSignificantDigits.or a.minimumSignificantDigits
  maximumSignificantDigits := b.maximumSignificantDigits.or a.maximumSignificantDigits
  roundingPriority := b.roundingPriority.or a.roundingPriority
  roundingMode := b.roundingMode.or a.roundingMode
  trailingZeroDisplay := b.trailingZeroDisplay.or a.trailingZeroDisplay

namespace NumberFormatOptions

/-- Settings that set nothing change nothing. -/
@[simp] theorem override_empty (a : NumberFormatOptions) : a.override {} = a := by
  simp [override]

/-- Laid over nothing, settings are unchanged. -/
@[simp] theorem empty_override (b : NumberFormatOptions) : override {} b = b := by
  simp [override]

/-- Laying over is associative: only the topmost setting of each field counts. -/
theorem override_assoc (a b c : NumberFormatOptions) :
    (a.override b).override c = a.override (b.override c) := by
  simp [override, Option.or_assoc]

end NumberFormatOptions

end MessagePattern
