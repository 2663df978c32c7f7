/-
# Settings laid over each other

Interpretation writes token after token into one record.  All the same it does no
more than lay settings over each other, since `NumberToken.applyTo_eq` says so of
every token: to interpret a list of tokens is to interpret two parts of it and lay
the second over the first.  `NumberField` names the fields of a number format, so
that what laying over means can be said of all of them at once: a field has the
value that was set last.

White space between two skeletons separates their tokens, so the same holds of
skeletons that are written one behind the other.
-/

import MessagePattern.Proofs.Layers
import MessagePattern.Proofs.NumberTokens
import MessagePattern.Proofs.TokenSettings

namespace MessagePattern

/-! ## Fields -/

/-- The fields of a number format, each with the type of its values. -/
inductive NumberField : Type → Type 1
  | style : NumberField NumberStyle
  | currency : NumberField String
  | currencyDisplay : NumberField CurrencyDisplay
  | currencySign : NumberField CurrencySign
  | unit : NumberField String
  | unitDisplay : NumberField UnitDisplay
  | useGrouping : NumberField Grouping
  | numberNotation : NumberField NumberNotation
  | compactDisplay : NumberField CompactDisplay
  | signDisplay : NumberField SignDisplay
  | scale : NumberField Binary64
  | minimumIntegerDigits : NumberField Nat
  | minimumFractionDigits : NumberField Nat
  | maximumFractionDigits : NumberField Nat
  | minimumSignificantDigits : NumberField Nat
  | maximumSignificantDigits : NumberField Nat
  | roundingPriority : NumberField RoundingPriority
  | roundingMode : NumberField RoundingMode
  | trailingZeroDisplay : NumberField TrailingZeroDisplay

namespace NumberField

variable {α : Type}

/-- What settings say about a field, if anything. -/
def get : NumberField α → NumberFormatOptions → Option α
  | .style, settings => settings.style
  | .currency, settings => settings.currency
  | .currencyDisplay, settings => settings.currencyDisplay
  | .currencySign, settings => settings.currencySign
  | .unit, settings => settings.unit
  | .unitDisplay, settings => settings.unitDisplay
  | .useGrouping, settings => settings.useGrouping
  | .numberNotation, settings => settings.numberNotation
  | .compactDisplay, settings => settings.compactDisplay
  | .signDisplay, settings => settings.signDisplay
  | .scale, settings => settings.scale
  | .minimumIntegerDigits, settings => settings.minimumIntegerDigits
  | .minimumFractionDigits, settings => settings.minimumFractionDigits
  | .maximumFractionDigits, settings => settings.maximumFractionDigits
  | .minimumSignificantDigits, settings => settings.minimumSignificantDigits
  | .maximumSignificantDigits, settings => settings.maximumSignificantDigits
  | .roundingPriority, settings => settings.roundingPriority
  | .roundingMode, settings => settings.roundingMode
  | .trailingZeroDisplay, settings => settings.trailingZeroDisplay

@[simp] theorem get_empty (f : NumberField α) : f.get {} = none := by
  cases f <;> rfl

@[simp] theorem get_override (f : NumberField α) (a b : NumberFormatOptions) :
    f.get (a.override b) = (f.get b).or (f.get a) := by
  cases f <;> rfl

/-- Settings are what they say about their fields. -/
theorem ext_get {a b : NumberFormatOptions} (h : ∀ α (f : NumberField α), f.get a = f.get b) :
    a = b := by
  cases a
  cases b
  rw [NumberFormatOptions.mk.injEq]
  exact ⟨h _ .style, h _ .currency, h _ .currencyDisplay, h _ .currencySign, h _ .unit,
    h _ .unitDisplay, h _ .useGrouping, h _ .numberNotation, h _ .compactDisplay,
    h _ .signDisplay, h _ .scale, h _ .minimumIntegerDigits, h _ .minimumFractionDigits,
    h _ .maximumFractionDigits, h _ .minimumSignificantDigits, h _ .maximumSignificantDigits,
    h _ .roundingPriority, h _ .roundingMode, h _ .trailingZeroDisplay⟩

end NumberField

namespace NumberFormatOptions

instance : Std.Associative override := ⟨override_assoc⟩

instance : Std.LawfulIdentity override {} where
  left_id := empty_override
  right_id := override_empty

/-- The settings `r` are `b` laid over `a`: what `b` sets holds, and where it sets
nothing, what `a` says does. -/
structure LaidOver (a b r : NumberFormatOptions) : Prop where
  set : ∀ α (f : NumberField α) (v : α), f.get b = some v → f.get r = some v
  unset : ∀ α (f : NumberField α), f.get b = none → f.get r = f.get a

theorem laidOver_iff {a b r : NumberFormatOptions} : LaidOver a b r ↔ r = a.override b := by
  constructor
  · intro h
    apply NumberField.ext_get
    intro α f
    rw [NumberField.get_override]
    cases hfield : f.get b with
    | none => exact h.unset α f hfield
    | some v => exact h.set α f v hfield
  · rintro rfl
    constructor
    · intro α f v hfield
      simp [hfield]
    · intro α f hfield
      simp [hfield]

end NumberFormatOptions

/-- What a token alone says about a field, if it can be interpreted and says anything. -/
def NumberToken.sets {α : Type} (t : NumberToken) (f : NumberField α) : Option α :=
  (NumberSkeleton.interpret [t]).toOption.bind f.get

namespace NumberSkeleton

/-! ## Tokens one behind the other -/

/-- What tokens write into one record, one after the other, is what their settings give
when they are laid over each other. -/
theorem interpret_eq_layered (tokens : List NumberToken) :
    interpret tokens = layered NumberFormatOptions.override {} NumberToken.settings tokens := by
  simp only [interpret, layered, NumberToken.applyTo_eq]

/-- The tokens of two lists are interpreted one list after the other. -/
theorem interpret_append (s t : List NumberToken) :
    interpret (s ++ t) = do
      let a ← interpret s
      let b ← interpret t
      return a.override b := by
  simp only [interpret_eq_layered]
  exact layered_append s t

theorem interpret_singleton (t : NumberToken) : interpret [t] = t.settings := by
  rw [interpret_eq_layered]
  exact layered_singleton t

/-- A field has the value that the last token to set it gave it. -/
theorem get_of_interpret {tokens : List NumberToken} {r : NumberFormatOptions}
    (h : interpret tokens = .ok r) {α : Type} (f : NumberField α) :
    f.get r = tokens.reverse.findSome? (·.sets f) := by
  rw [interpret_eq_layered] at h
  simp only [NumberToken.sets, interpret_singleton]
  exact get_of_layered f.get_empty f.get_override h

/-! ## Skeletons one behind the other -/

/-- White space in front of a text adds no piece. -/
theorem pieces_append_of_space {w : List Char} (hw : ∀ c ∈ w, isPatternSpace c = true)
    (y : List Char) : pieces (w ++ y) = pieces y := by
  induction w with
  | nil => rfl
  | cons c w ih =>
      obtain ⟨hc, hrest⟩ := List.forall_mem_cons.mp hw
      rw [← ih hrest]
      exact pieces_append_cons [] (w ++ y) hc

theorem pieces_append {x w y : List Char} (hne : w ≠ [])
    (hw : ∀ c ∈ w, isPatternSpace c = true) : pieces (x ++ w ++ y) = pieces x ++ pieces y := by
  obtain ⟨c, w, rfl⟩ := List.exists_cons_of_ne_nil hne
  obtain ⟨hc, hrest⟩ := List.forall_mem_cons.mp hw
  rw [List.append_assoc, List.cons_append, pieces_append_cons x _ hc,
    pieces_append_of_space hrest]

/-- White space between two skeletons separates their tokens. -/
theorem tokenize_append {x w y : List Char} {s t : List NumberToken} (hne : w ≠ [])
    (hw : ∀ c ∈ w, isPatternSpace c = true) (hx : tokenize x = .ok s) (hy : tokenize y = .ok t) :
    tokenize (x ++ w ++ y) = .ok (s ++ t) := by
  rw [tokenize_eq_ok_iff, mapM_eq_ok_iff] at hx hy ⊢
  rw [pieces_append hne hw]
  exact ⟨List.rel_append hx.1 hy.1, List.append_ne_nil_of_left_ne_nil hx.2 t⟩

/-- Interpretation is compositional and the last setting wins, for lists of tokens
and for skeletons with white space in between. -/
theorem interpret_layers :
    (∀ s t : List NumberToken,
      (∀ e, interpret s = .error e → interpret (s ++ t) = .error e) ∧
      (∀ a e, interpret s = .ok a → interpret t = .error e → interpret (s ++ t) = .error e) ∧
      ∀ a b, interpret s = .ok a → interpret t = .ok b →
        ∃ r, interpret (s ++ t) = .ok r ∧ a.LaidOver b r) ∧
    (∀ tokens r, interpret tokens = .ok r → ∀ α (f : NumberField α),
      f.get r = tokens.reverse.findSome? (·.sets f)) ∧
    ∀ x w y : List Char, ∀ s t : List NumberToken,
      w ≠ [] → (∀ c ∈ w, isPatternSpace c = true) → tokenize x = .ok s → tokenize y = .ok t →
        tokenize (x ++ w ++ y) = .ok (s ++ t) ∧
        (tokenize (x ++ w ++ y) >>= interpret) = do
          let a ← tokenize x >>= interpret
          let b ← tokenize y >>= interpret
          return a.override b := by
  refine ⟨fun s t => ⟨?_, ?_, ?_⟩, fun tokens r h α f => get_of_interpret h f, ?_⟩
  · intro e he
    rw [interpret_append, he]
    rfl
  · intro a e ha he
    rw [interpret_append, ha, he]
    rfl
  · intro a b ha hb
    refine ⟨a.override b, ?_, NumberFormatOptions.laidOver_iff.mpr rfl⟩
    rw [interpret_append, ha, hb]
    rfl
  · intro x w y s t hne hw hx hy
    have htokens := tokenize_append hne hw hx hy
    refine ⟨htokens, ?_⟩
    rw [htokens, hx, hy]
    exact interpret_append s t

/-- A second currency and a second bound on the fraction digits are laid over the
first ones; the sign display of the first skeleton stays. -/
theorem interpret_layers_currency :
    tokenize "currency/EUR sign-always .00\t\n currency/CHF .0".toList =
      .ok [⟨"currency", ["EUR"]⟩, ⟨"sign-always", []⟩, ⟨".00", []⟩, ⟨"currency", ["CHF"]⟩,
        ⟨".0", []⟩] ∧
    (tokenize "currency/EUR sign-always .00\t\n currency/CHF .0".toList >>= interpret) =
      .ok { style := some .currency, currency := some "CHF", signDisplay := some .always,
            minimumFractionDigits := some 1, maximumFractionDigits := some 1 } :=
  interpret_layers.2.2 "currency/EUR sign-always .00".toList "\t\n ".toList
    "currency/CHF .0".toList
    [⟨"currency", ["EUR"]⟩, ⟨"sign-always", []⟩, ⟨".00", []⟩] [⟨"currency", ["CHF"]⟩, ⟨".0", []⟩]
    (by decide) (List.all_eq_true.mp (by decide)) (by rfl) (by rfl)

end NumberSkeleton

end MessagePattern
