/-
# What a token sets

`NumberToken.settings` says what a token sets without regard to its neighbours: a record
in which the fields are unset that the token leaves alone.  `NumberToken.applyTo_eq` says
that interpretation does no more than lay this record over the options set so far.  So no
stem reads what an earlier token has set or takes it back, and whether a token is refused
depends on the token alone.

There is one lemma for each family of stems, since each family writes into the options in
its own way: keywords with fixed fields, keywords with an option, exponents, integer
widths, fraction stems, significant digits, and sign display with concise notation.
-/

import MessagePattern.Proofs.Outcome
import MessagePattern.Skeleton.NumberStem

namespace MessagePattern

namespace NumberSkeleton

variable (r : NumberFormatOptions)

/-! ## Significant digits, signs and concise notations -/

/-- The settings of a significant-digits pattern. -/
def SignificantDigits.settings (k : SignificantDigits) : NumberFormatOptions :=
  { minimumSignificantDigits := some k.least
    maximumSignificantDigits := k.most
    roundingPriority := k.priority }

theorem SignificantDigits.applyTo_eq (k : SignificantDigits) :
    k.applyTo r = r.override k.settings := by
  obtain ⟨least, most, priority⟩ := k
  cases most <;> cases priority <;> rfl

/-- The settings of a word for sign display. -/
def SignOptions.settings (k : SignOptions) : NumberFormatOptions :=
  { signDisplay := k.signDisplay, currencySign := k.currencySign }

theorem SignOptions.applyTo_eq (k : SignOptions) : k.applyTo r = r.override k.settings := by
  obtain ⟨display, sign⟩ := k
  cases display <;> cases sign <;> rfl

/-- The settings of a concise notation. -/
def ConciseNotation.settings (k : ConciseNotation) : NumberFormatOptions :=
  { numberNotation := some k.form
    signDisplay := k.signDisplay
    minimumIntegerDigits := some k.digits }

theorem ConciseNotation.applyTo_eq (k : ConciseNotation) :
    k.applyTo r = r.override k.settings := by
  obtain ⟨form, display, digits⟩ := k
  cases display <;> rfl

/-- What a word says about signs; other words say nothing. -/
def signSettings (word : String) : NumberFormatOptions :=
  (signWords.lookup word).elim {} SignOptions.settings

theorem applySign_eq (word : String) : applySign r word = r.override (signSettings word) := by
  unfold applySign signSettings
  cases signWords.lookup word with
  | none => exact r.override_empty.symm
  | some sign => exact sign.applyTo_eq r

/-- The settings of a stem that is a concise notation.  Stems that do not begin with its
letter set nothing. -/
def conciseSettings (stem : String) : Except SkeletonError NumberFormatOptions :=
  (Option.elim · {} ConciseNotation.settings) <$> conciseNotation? stem

/-! ## Keywords -/

/-- The settings of the stems that set the same fields whatever their options. -/
def fixedStems : List (String × NumberFormatOptions) :=
  [("percent", { style := some .percent }),
    ("%", { style := some .percent }),
    ("%x100", { style := some .percent, scale := some (.ofInt 100) }),
    ("group-off", { useGrouping := some (.enabled false) }),
    (",_", { useGrouping := some (.enabled false) }),
    ("group-min2", { useGrouping := some (.mode .min2) }),
    (",?", { useGrouping := some (.mode .min2) }),
    ("group-auto", { useGrouping := some (.mode .auto) }),
    ("group-on-aligned", { useGrouping := some (.mode .always) }),
    (",!", { useGrouping := some (.mode .always) }),
    ("group-thousands", { useGrouping := some (.mode .always) }),
    (",=", { useGrouping := some (.mode .always) }),
    ("precision-integer", { maximumFractionDigits := some 0 }),
    (".", { maximumFractionDigits := some 0 }),
    ("compact-short", { numberNotation := some .compact, compactDisplay := some .short }),
    ("K", { numberNotation := some .compact, compactDisplay := some .short }),
    ("compact-long", { numberNotation := some .compact, compactDisplay := some .long }),
    ("KK", { numberNotation := some .compact, compactDisplay := some .long }),
    ("notation-simple", { numberNotation := some .standard }),
    ("unit-width-narrow",
      { currencyDisplay := some .narrowSymbol, unitDisplay := some .narrow }),
    ("unit-width-short", { currencyDisplay := some .symbol, unitDisplay := some .short }),
    ("unit-width-full-name", { currencyDisplay := some .name, unitDisplay := some .long }),
    ("unit-width-iso-code", { currencyDisplay := some .code }),
    ("rounding-mode-floor", { roundingMode := some .floor }),
    ("rounding-mode-ceiling", { roundingMode := some .ceil }),
    ("rounding-mode-down", { roundingMode := some .trunc }),
    ("rounding-mode-up", { roundingMode := some .expand }),
    ("rounding-mode-half-even", { roundingMode := some .halfEven }),
    ("rounding-mode-half-down", { roundingMode := some .halfTrunc }),
    ("rounding-mode-half-up", { roundingMode := some .halfExpand }),
    ("rounding-mode-half-ceiling", { roundingMode := some .halfCeil }),
    ("rounding-mode-half-floor", { roundingMode := some .halfFloor })]

end NumberSkeleton

namespace NumberToken

open NumberSkeleton

/-- The settings of a scale. -/
def scaleSettings (t : NumberToken) : Except SkeletonError NumberFormatOptions := do
  let factor ← t.requiredOption
  match Binary64.read? factor.toList with
  | some scale => return { scale := some scale }
  | none => .error (.invalidOption t.stem factor .notFinite)

/-- The settings of an integer width. -/
def integerWidthSettings (t : NumberToken) : Except SkeletonError NumberFormatOptions := do
  match ← t.singleOption? with
  | none => .error (.missingOption t.stem)
  | some option =>
    match integerWidth? option.toList with
    | some (.least digits) => .ok { minimumIntegerDigits := some digits }
    | some .most => .error (.invalidOption t.stem option .maximumIntegerDigits)
    | some .exact => .error (.invalidOption t.stem option .exactIntegerDigits)
    | none => .error (.invalidOption t.stem option .notIntegerWidth)

/-- What the option of a fraction stem sets. -/
def fractionOptionSettings (t : NumberToken) :
    Option String → Except SkeletonError NumberFormatOptions
  | none => .ok {}
  | some option =>
    if option = "w" then .ok { trailingZeroDisplay := some .stripIfInteger }
    else
      match significantDigits? option.toList with
      | some digits => .ok digits.settings
      | none => .error (.invalidOption t.stem option .notFractionSuffix)

/-- The settings of a token whose stem is recognised by its form. -/
def structuralSettings (t : NumberToken) : Except SkeletonError NumberFormatOptions :=
  let stem := t.stem.toList
  if isRunOf '0' stem then .ok { minimumIntegerDigits := some stem.length }
  else
    match fractionDigits? stem with
    | some (least, most) => do
      let settings ← t.fractionOptionSettings (← t.singleOption?)
      let digits : NumberFormatOptions :=
        { minimumFractionDigits := some least, maximumFractionDigits := most }
      return digits.override settings
    | none =>
      match significantDigits? stem with
      | some digits => .ok digits.settings
      | none => (signSettings t.stem).override <$> conciseSettings t.stem

/-- The settings of an exponent stem: its notation and what its options say about
signs, the last one winning. -/
def exponentSettings (t : NumberToken) (form : NumberNotation) : NumberFormatOptions :=
  t.options.foldl (fun settings option => settings.override (signSettings option))
    { numberNotation := some form }

/-- What one token sets. -/
def settings (t : NumberToken) : Except SkeletonError NumberFormatOptions :=
  if t.stem = "currency" then do
    let code ← t.requiredOption
    return { style := some .currency, currency := some code }
  else if t.stem = "unit" ∨ t.stem = "measure-unit" then do
    let unit ← t.requiredOption
    return { style := some .unit, unit := some (String.ofList (unitName unit.toList)) }
  else if t.stem = "scale" then t.scaleSettings
  else if t.stem = "integer-width" then t.integerWidthSettings
  else if t.stem = "scientific" then .ok (t.exponentSettings .scientific)
  else if t.stem = "engineering" then .ok (t.exponentSettings .engineering)
  else
    match fixedStems.lookup t.stem with
    | some settings => .ok settings
    | none => t.structuralSettings

/-! ## Families of stems -/

section Families

variable (t : NumberToken) (r : NumberFormatOptions)

theorem applyScale_eq : t.applyScale r = r.override <$> t.scaleSettings := by
  unfold applyScale scaleSettings
  rw [map_bind]
  apply bind_congr
  intro factor
  cases Binary64.read? factor.toList <;> rfl

theorem applyIntegerWidth_eq : t.applyIntegerWidth r = r.override <$> t.integerWidthSettings := by
  unfold applyIntegerWidth integerWidthSettings
  rw [map_bind]
  apply bind_congr
  intro option?
  cases option? with
  | none => rfl
  | some option =>
      simp only
      rcases integerWidth? option.toList with _ | (_ | _ | _) <;> rfl

/-- What the options of an exponent stem say about signs is laid over each other first and
then over what was set before. -/
theorem foldl_applySign_eq (options : List String) (below : NumberFormatOptions) :
    options.foldl applySign (r.override below) =
      r.override (options.foldl
        (fun settings option => settings.override (signSettings option)) below) := by
  induction options generalizing below with
  | nil => rfl
  | cons option options ih =>
      rw [List.foldl_cons, List.foldl_cons, applySign_eq, NumberFormatOptions.override_assoc, ih]

theorem applyExponent_eq (form : NumberNotation) :
    t.applyExponent form r = r.override (t.exponentSettings form) :=
  foldl_applySign_eq r t.options { numberNotation := some form }

/-- The bounds of a fraction stem are written first, and over them what its option sets. -/
theorem applyFraction_eq (least : Nat) (most : Option Nat) :
    t.applyFraction least most r = r.override <$> do
      let settings ← t.fractionOptionSettings (← t.singleOption?)
      let digits : NumberFormatOptions :=
        { minimumFractionDigits := some least, maximumFractionDigits := most }
      return digits.override settings := by
  unfold applyFraction
  rw [map_bind]
  apply bind_congr
  intro option?
  have hbounds : (if most.isSome then
        { r with minimumFractionDigits := some least, maximumFractionDigits := most }
      else { r with minimumFractionDigits := some least }) =
      r.override { minimumFractionDigits := some least, maximumFractionDigits := most } := by
    cases most <;> rfl
  cases option? with
  | none =>
      simp only [fractionOptionSettings, hbounds]
      rfl
  | some option =>
      simp only [fractionOptionSettings, hbounds]
      split
      · rfl
      · cases significantDigits? option.toList with
        | none => rfl
        | some digits =>
            simp only [digits.applyTo_eq, NumberFormatOptions.override_assoc]
            rfl

theorem applyForm_eq : t.applyForm r = r.override <$> t.structuralSettings := by
  unfold applyForm structuralSettings
  simp only
  split
  · rfl
  cases fractionDigits? t.stem.toList with
  | some bounds => exact t.applyFraction_eq r bounds.1 bounds.2
  | none =>
      cases significantDigits? t.stem.toList with
      | some digits => exact congrArg Except.ok (digits.applyTo_eq r)
      | none =>
          simp only [conciseSettings, applySign_eq]
          cases conciseNotation? t.stem with
          | error e => rfl
          | ok concise? =>
              cases concise? with
              | none =>
                  refine congrArg Except.ok (congrArg r.override ?_)
                  exact (signSettings t.stem).override_empty.symm
              | some concise =>
                  refine congrArg Except.ok ((concise.applyTo_eq _).trans ?_)
                  exact r.override_assoc (signSettings t.stem) concise.settings

/-- The keywords with rules of their own. -/
def ruledStems : List String :=
  ["currency", "unit", "measure-unit", "scale", "integer-width", "scientific", "engineering"]

/-- Any other keyword writes the fields that stand beside it, and what is no keyword writes
nothing at this point. -/
theorem applyKeyword_eq (h : t.stem ∉ ruledStems) :
    t.applyKeyword r =
      (fixedStems.lookup t.stem).map fun settings => .ok (r.override settings) := by
  obtain ⟨stem, options⟩ := t
  unfold applyKeyword
  simp only at h ⊢
  split
  -- The word is known in each case but the last, where it is none of the table.
  all_goals first | rfl | exact absurd (by decide) h | skip
  have hnone : fixedStems.lookup stem = none := by
    rw [List.lookup_eq_none_iff]
    simp_all [fixedStems]
  rw [hnone]
  rfl

/-- A token lays its settings over those in front of it, and is refused whatever those are. -/
theorem applyTo_eq : t.applyTo r = r.override <$> t.settings := by
  obtain ⟨stem, options⟩ := t
  by_cases hruled : stem ∈ ruledStems
  · simp only [ruledStems, List.mem_cons, List.not_mem_nil, or_false] at hruled
    rcases hruled with rfl | rfl | rfl | rfl | rfl | rfl | rfl
    · cases options <;> rfl
    · cases options <;> rfl
    · cases options <;> rfl
    · exact applyScale_eq _ r
    · exact applyIntegerWidth_eq _ r
    · exact congrArg Except.ok (applyExponent_eq _ r .scientific)
    · exact congrArg Except.ok (applyExponent_eq _ r .engineering)
  · rw [applyTo, applyKeyword_eq _ r hruled]
    simp only [ruledStems, List.mem_cons, List.not_mem_nil, or_false, not_or] at hruled
    simp only [settings, hruled, or_self, if_false]
    cases fixedStems.lookup stem with
    | some settings => rfl
    | none => exact applyForm_eq _ r

end Families

end NumberToken

end MessagePattern
