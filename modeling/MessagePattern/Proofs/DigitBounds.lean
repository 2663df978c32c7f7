/-
# What tokens say about digits

`SaysDigits` goes through all tokens that can be interpreted and says what each leaves
in the settings that concern digits.  It is the only place where the order in which a
stem is tried matters.  No two forms begin alike, so what a form sets, and that nothing
else sets a bound, can be read off it.
-/

import MessagePattern.Proofs.DigitForms

namespace MessagePattern

namespace NumberToken

open NumberSkeleton

/-- A token states bounds on significant digits by its stem, or by the option of a fraction
stem. -/
inductive StatesSignificant :
    NumberToken → Nat → Option Nat → Option RoundingPriority → Prop
  | stem {stem : String} {options : List String} {least : Nat} {most : Option Nat}
      {priority : Option RoundingPriority}
      (bounds : SignificantBounds stem.toList least most priority) :
      StatesSignificant ⟨stem, options⟩ least most priority
  | option {stem option : String} {least : Nat} {most : Option Nat}
      {priority : Option RoundingPriority} (fraction : IsFractionStem stem.toList)
      (bounds : SignificantBounds option.toList least most priority) :
      StatesSignificant ⟨stem, [option]⟩ least most priority

/-- A token states the least number of integer digits by zeros: they are its stem, end it
behind a concise notation, or stand in the option of an integer width. -/
inductive StatesInteger : NumberToken → Nat → Prop
  | stem {stem : String} {options : List String} {a : Nat} (digits : 1 ≤ a)
      (zeros : stem.toList = List.replicate a '0') : StatesInteger ⟨stem, options⟩ a
  | width {option : String} {a : Nat} (digits : 1 ≤ a)
      (zeros : option.toList = '*' :: List.replicate a '0') :
      StatesInteger ⟨"integer-width", [option]⟩ a
  | concise {stem : String} {options : List String} {a : Nat}
      (form : ConciseDigits stem.toList a) : StatesInteger ⟨stem, options⟩ a

variable {t : NumberToken} {settings : NumberFormatOptions}

/-! ## What each token leaves -/

/-- What a token that can be interpreted says about digits. -/
inductive SaysDigits : NumberToken → NumberFormatOptions → Prop
  | noFraction {stem : String} {options : List String} (word : AsksNoFraction stem) :
      SaysDigits ⟨stem, options⟩ { maximumFractionDigits := some 0 }
  | integer {t : NumberToken} {a : Nat} (zeros : t.StatesInteger a) :
      SaysDigits t { minimumIntegerDigits := some a }
  | fraction {stem : String} {options : List String} {least : Nat} {most : Option Nat}
      (bounds : FractionBounds stem.toList least most) (plain : options = [] ∨ options = ["w"]) :
      SaysDigits ⟨stem, options⟩
        { minimumFractionDigits := some least, maximumFractionDigits := most }
  | fractionOption {stem option : String} {least least' : Nat} {most most' : Option Nat}
      {priority : Option RoundingPriority} (bounds : FractionBounds stem.toList least most)
      (digits : SignificantBounds option.toList least' most' priority) :
      SaysDigits ⟨stem, [option]⟩
        { minimumFractionDigits := some least, maximumFractionDigits := most
          minimumSignificantDigits := some least', maximumSignificantDigits := most'
          roundingPriority := priority }
  | significant {stem : String} {options : List String} {least : Nat} {most : Option Nat}
      {priority : Option RoundingPriority}
      (bounds : SignificantBounds stem.toList least most priority) :
      SaysDigits ⟨stem, options⟩ (SignificantDigits.settings ⟨least, most, priority⟩)
  | silent {t : NumberToken} (noWord : ¬ AsksNoFraction t.stem)
      (noFraction : ¬ IsFractionStem t.stem.toList)
      (noSignificant : ¬ IsSignificantDigits t.stem.toList)
      (noInteger : ∀ a, ¬ t.StatesInteger a) : SaysDigits t {}

theorem mem_of_lookup {word : String} {table : List (String × NumberFormatOptions)}
    (h : table.lookup word = some settings) : (word, settings) ∈ table := by
  obtain ⟨before, after, rfl, -⟩ := List.lookup_eq_some_iff.mp h
  exact List.mem_append_right before List.mem_cons_self

theorem digits_signSettings (word : String) : (signSettings word).digits = {} := by
  unfold signSettings
  cases signWords.lookup word <;> rfl

theorem digits_exponentSettings (form : NumberNotation) :
    (t.exponentSettings form).digits = {} := by
  have hfold (options : List String) (start : NumberFormatOptions) (hstart : start.digits = {}) :
      (options.foldl (fun settings option => settings.override (signSettings option))
        start).digits = {} := by
    induction options generalizing start with
    | nil => exact hstart
    | cons option options ih =>
        apply ih
        rw [NumberFormatOptions.digits_override, hstart, digits_signSettings]
        rfl
  exact hfold t.options _ rfl

theorem exists_of_integerWidthSettings (h : t.integerWidthSettings = .ok settings) :
    ∃ option a, t.options = [option] ∧ 1 ≤ a ∧ option.toList = '*' :: List.replicate a '0' ∧
      settings = { minimumIntegerDigits := some a } := by
  obtain ⟨option?, hoption, hread⟩ := bind_eq_ok h
  rw [singleOption?_eq_ok_iff] at hoption
  split at hread
  · cases hread
  next option =>
  have hform := widthForm_integerWidth? option.toList
  generalize integerWidth? option.toList = width? at hform hread
  cases hform with
  | least digits form =>
      cases hread
      exact ⟨option, _, hoption, digits, form, rfl⟩
  | exact | most | other => cases hread

/-- The option of a fraction stem says nothing about digits, or states bounds on significant
ones. -/
theorem digits_of_fractionOptionSettings {option? : Option String}
    (h : t.fractionOptionSettings option? = .ok settings) :
    ((option? = none ∨ option? = some "w") ∧ settings.digits = {}) ∨
      ∃ option least most priority, option? = some option ∧
        SignificantBounds option.toList least most priority ∧
        settings = SignificantDigits.settings ⟨least, most, priority⟩ := by
  unfold fractionOptionSettings at h
  split at h
  · cases h
    exact .inl ⟨.inl rfl, rfl⟩
  split at h
  · next hw =>
      cases h
      exact .inl ⟨.inr (congrArg some hw), rfl⟩
  split at h
  · next hdigits =>
      cases h
      exact .inr ⟨_, _, _, _, rfl, significantDigits?_eq_some_iff.mp hdigits, rfl⟩
  · cases h

/-! ## All tokens -/

theorem StatesInteger.head? {a : Nat} (h : t.StatesInteger a) :
    t.stem.toList.head? ∈ [some '0', some 'i', some 'E'] := by
  cases h with
  | @stem stem _ _ digits zeros =>
      have hrun : Repeats '0' stem.toList := ⟨a, digits, zeros⟩
      simp [hrun.head?]
  | width =>
      simp
  | concise form => simp [form.head?]

/-- Stems that begin as no form does and that are no words for a number without fraction. -/
def SilentStem (stem : String) : Prop :=
  ¬ AsksNoFraction stem ∧
    stem.toList.head? ∉ [some '0', some 'i', some 'E', some '.', some '@']

instance : DecidablePred SilentStem := fun _ => inferInstanceAs (Decidable (_ ∧ _))

theorem saysDigits_of_silentStem (h : SilentStem t.stem) : t.SaysDigits {} := by
  obtain ⟨hword, hhead⟩ := h
  refine .silent hword ?_ ?_ ?_
  · intro hfraction
    simp [hfraction.head?] at hhead
  · intro hsignificant
    simp [hsignificant.head?] at hhead
  · intro a hstates
    have hinteger := hstates.head?
    simp_all

/-- The fixed stems say nothing about digits, except for those that ask for no fraction. -/
theorem saysDigits_of_fixedStems (h : fixedStems.lookup t.stem = some settings) :
    t.SaysDigits settings.digits := by
  have hall : ∀ entry ∈ fixedStems,
      (AsksNoFraction entry.1 ∧ entry.2.digits = { maximumFractionDigits := some 0 }) ∨
      (SilentStem entry.1 ∧ entry.2.digits = {}) := by
    decide
  rcases hall _ (mem_of_lookup h) with ⟨hword, hdigits⟩ | ⟨hsilent, hdigits⟩
  · rw [hdigits]
    exact .noFraction hword
  · rw [hdigits]
    exact saysDigits_of_silentStem hsilent

theorem digits_fraction_override (least least' : Nat) (most most' : Option Nat)
    (priority : Option RoundingPriority) :
    (({ minimumFractionDigits := some least, maximumFractionDigits := most } :
        NumberFormatOptions).override
          (SignificantDigits.settings ⟨least', most', priority⟩)).digits =
      { minimumFractionDigits := some least, maximumFractionDigits := most
        minimumSignificantDigits := some least', maximumSignificantDigits := most'
        roundingPriority := priority } := by
  simp [NumberFormatOptions.digits, NumberFormatOptions.override, SignificantDigits.settings]

/-- Stems that are recognised by their form say what the form states. -/
theorem saysDigits_of_structuralSettings
    (hword : ¬ AsksNoFraction t.stem) (hwidth : t.stem ≠ "integer-width")
    (h : t.structuralSettings = .ok settings) : t.SaysDigits settings.digits := by
  unfold structuralSettings at h
  simp only at h
  split at h
  · next hrun =>
      cases h
      obtain ⟨a, digits, hzeros⟩ := isRunOf_iff.mp hrun
      have hlength : t.stem.toList.length = a := by simp [hzeros]
      exact .integer (.stem (by omega) (by rw [hlength, hzeros]))
  next hrun =>
  split at h
  · next least most hdigits =>
      have bounds := fractionDigits?_eq_some_iff.mp hdigits
      obtain ⟨option?, hoption, hrest⟩ := bind_eq_ok h
      obtain ⟨settings', hsettings', hlast⟩ := bind_eq_ok hrest
      cases hlast
      rw [singleOption?_eq_ok_iff] at hoption
      obtain ⟨stem, options⟩ := t
      cases hoption
      rcases digits_of_fractionOptionSettings hsettings' with
        ⟨hplain, hnone⟩ | ⟨option, least', most', priority, rfl, bounds', rfl⟩
      · rw [NumberFormatOptions.digits_override, hnone, NumberFormatOptions.override_empty]
        refine .fraction bounds ?_
        rcases hplain with rfl | rfl
        · exact .inl rfl
        · exact .inr rfl
      · rw [digits_fraction_override]
        exact .fractionOption bounds bounds'
  next hfraction =>
  split at h
  · next digits hsignificant =>
      cases h
      exact .significant (significantDigits?_eq_some_iff.mp hsignificant)
  · next hsignificant =>
      obtain ⟨settings', hconcise, rfl⟩ := map_eq_ok h
      rw [NumberFormatOptions.digits_override, digits_signSettings,
        NumberFormatOptions.empty_override]
      rcases digits_of_conciseSettings hconcise with ⟨hhead, rfl⟩ | ⟨a, hform, hdigits⟩
      · refine .silent hword ?_ ?_ ?_
        · simp [← isSome_fractionDigits?_iff, hfraction]
        · simp [← isSome_significantDigits?_iff, hsignificant]
        · intro a hstates
          cases hstates with
          | stem digits zeros => exact hrun (isRunOf_iff.mpr ⟨a, digits, zeros⟩)
          | width => exact hwidth rfl
          | concise form => exact hhead form.head?
      · rw [hdigits]
        exact .integer (.concise hform)

theorem saysDigits_of_settings {settings : NumberFormatOptions} (h : t.settings = .ok settings) :
    t.SaysDigits settings.digits := by
  have hsilent (word : String) (hword : SilentStem word) (hstem : t.stem = word) :
      t.SaysDigits {} := saysDigits_of_silentStem (hstem ▸ hword)
  unfold NumberToken.settings at h
  split at h
  · next hstem =>
      obtain ⟨code, -, hlast⟩ := bind_eq_ok h
      cases hlast
      exact hsilent "currency" (by decide) hstem
  split at h
  · next hstem =>
      obtain ⟨unit, -, hlast⟩ := bind_eq_ok h
      cases hlast
      rcases hstem with hstem | hstem
      · exact hsilent "unit" (by decide) hstem
      · exact hsilent "measure-unit" (by decide) hstem
  split at h
  · next hstem =>
      obtain ⟨factor, -, hread⟩ := bind_eq_ok h
      split at hread
      · cases hread
        exact hsilent "scale" (by decide) hstem
      · cases hread
  split at h
  · next hstem =>
      obtain ⟨option, a, hoption, digits, hzeros, rfl⟩ := exists_of_integerWidthSettings h
      obtain ⟨stem, options⟩ := t
      cases hstem
      cases hoption
      exact .integer (.width digits hzeros)
  next hwidth =>
  split at h
  · next hstem =>
      cases h
      rw [digits_exponentSettings]
      exact hsilent "scientific" (by decide) hstem
  split at h
  · next hstem =>
      cases h
      rw [digits_exponentSettings]
      exact hsilent "engineering" (by decide) hstem
  split at h
  · next hlookup =>
      cases h
      exact saysDigits_of_fixedStems hlookup
  · next hlookup =>
      refine saysDigits_of_structuralSettings ?_ hwidth h
      rw [List.lookup_eq_none_iff] at hlookup
      rintro (hword | hword)
      · simpa [hword] using hlookup (".", { maximumFractionDigits := some 0 }) (by decide)
      · simpa [hword] using
          hlookup ("precision-integer", { maximumFractionDigits := some 0 }) (by decide)

variable {least : Nat} {most : Option Nat} {priority : Option RoundingPriority}

theorem StatesInteger.not_fraction {a : Nat} (h : t.StatesInteger a) :
    ¬ IsFractionStem t.stem.toList := by
  intro hfraction
  simpa [hfraction.head?] using h.head?

theorem StatesInteger.not_significant {a : Nat} (h : t.StatesInteger a) :
    ¬ IsSignificantDigits t.stem.toList := by
  intro hsignificant
  simpa [hsignificant.head?] using h.head?

theorem StatesInteger.not_asksNoFraction {a : Nat} (h : t.StatesInteger a) :
    ¬ AsksNoFraction t.stem := by
  have hhead := h.head?
  rintro (hword | hword) <;> simp [hword] at hhead

/-- The number that is stated is that of the zeros. -/
theorem StatesInteger.count_eq {a : Nat} (h : t.StatesInteger a) :
    (if t.stem = "integer-width" then t.options.flatMap String.toList
      else t.stem.toList).count '0' = a := by
  have hhead : "integer-width".toList.head? = some 'i' := by decide
  cases h with
  | @stem stem _ _ digits zeros =>
      have hrun : Repeats '0' stem.toList := ⟨a, digits, zeros⟩
      have hne : stem ≠ "integer-width" := by
        rintro rfl
        cases hrun.head?.symm.trans hhead
      simp [hne, zeros]
  | width digits zeros => simp [zeros]
  | @concise stem _ _ form =>
      have hne : stem ≠ "integer-width" := by
        rintro rfl
        cases form.head?.symm.trans hhead
      rw [if_neg hne]
      exact form.count_eq

/-- A token states bounds on significant digits in one way only. -/
theorem StatesSignificant.unique {least' : Nat} {most' : Option Nat}
    {priority' : Option RoundingPriority} (h : t.StatesSignificant least most priority)
    (h' : t.StatesSignificant least' most' priority') :
    least = least' ∧ most = most' ∧ priority = priority' := by
  cases h with
  | stem bounds =>
      cases h' with
      | stem bounds' => exact bounds.unique bounds'
      | option fraction =>
          exact absurd bounds.isSignificantDigits (not_significant_of_fraction fraction)
  | option fraction bounds =>
      cases h' with
      | stem bounds' =>
          exact absurd bounds'.isSignificantDigits (not_significant_of_fraction fraction)
      | option _ bounds' => exact bounds.unique bounds'

/-- Bounds on significant digits stand in a stem that is neither a fraction stem nor a word,
or in an option other than the one that strips the fraction. -/
theorem StatesSignificant.stem_or_option (h : t.StatesSignificant least most priority) :
    IsSignificantDigits t.stem.toList ∨
      IsFractionStem t.stem.toList ∧ t.options ≠ [] ∧ t.options ≠ ["w"] := by
  cases h with
  | stem bounds => exact .inl bounds.isSignificantDigits
  | @option _ option _ _ _ fraction bounds =>
      refine .inr ⟨fraction, by simp, ?_⟩
      rintro heq
      have hhead := bounds.isSignificantDigits.head?
      simp_all

theorem StatesInteger.exists_le_length {a : Nat} (h : t.StatesInteger a) :
    ∃ text ∈ t.stem :: t.options, a ≤ text.toList.length := by
  cases h with
  | stem digits zeros => exact ⟨_, List.mem_cons_self, by simp [zeros]⟩
  | @width option _ digits zeros => exact ⟨option, by simp, by simp [zeros]⟩
  | concise form => exact ⟨_, List.mem_cons_self, form.count_eq ▸ List.count_le_length⟩

namespace SaysDigits

variable {d : NumberFormatOptions}

theorem fraction_eq (h : t.SaysDigits d) (bounds : FractionBounds t.stem.toList least most) :
    d.minimumFractionDigits = some least ∧ d.maximumFractionDigits = most := by
  have hunique {least' most'} (bounds' : FractionBounds t.stem.toList least' most') :
      least' = least ∧ most' = most := by
    simpa using bounds'.fractionDigits?_eq.symm.trans bounds.fractionDigits?_eq
  cases h with
  | noFraction word => exact absurd bounds.isFractionStem (AsksNoFraction.not_fraction word)
  | integer zeros => exact absurd bounds.isFractionStem zeros.not_fraction
  | fraction bounds' | fractionOption bounds' =>
      obtain ⟨rfl, rfl⟩ := hunique bounds'
      exact ⟨rfl, rfl⟩
  | significant bounds' =>
      exact absurd bounds'.isSignificantDigits (not_significant_of_fraction bounds.isFractionStem)
  | silent _ noFraction => exact absurd bounds.isFractionStem noFraction

theorem noFraction_eq (h : t.SaysDigits d) (word : AsksNoFraction t.stem) :
    d.minimumFractionDigits = none ∧ d.maximumFractionDigits = some 0 := by
  cases h with
  | noFraction => exact ⟨rfl, rfl⟩
  | integer zeros => exact absurd word zeros.not_asksNoFraction
  | fraction bounds | fractionOption bounds => exact absurd bounds.isFractionStem word.not_fraction
  | significant bounds => exact absurd bounds.isSignificantDigits word.not_significant
  | silent noWord => exact absurd word noWord

theorem otherFraction_eq (h : t.SaysDigits d) (hform : ¬ IsFractionStem t.stem.toList)
    (hword : ¬ AsksNoFraction t.stem) :
    d.minimumFractionDigits = none ∧ d.maximumFractionDigits = none := by
  cases h with
  | noFraction word => exact absurd word hword
  | fraction bounds | fractionOption bounds => exact absurd bounds.isFractionStem hform
  | integer | significant | silent => exact ⟨rfl, rfl⟩

theorem significant_eq (h : t.SaysDigits d) (states : t.StatesSignificant least most priority) :
    d.minimumSignificantDigits = some least ∧ d.maximumSignificantDigits = most ∧
      d.roundingPriority = priority := by
  have hplace := states.stem_or_option
  cases h with
  | noFraction word =>
      rcases hplace with hstem | ⟨hfraction, -⟩
      · exact absurd hstem (AsksNoFraction.not_significant word)
      · exact absurd hfraction (AsksNoFraction.not_fraction word)
  | integer zeros =>
      rcases hplace with hstem | ⟨hfraction, -⟩
      · exact absurd hstem zeros.not_significant
      · exact absurd hfraction zeros.not_fraction
  | fraction bounds plain =>
      rcases hplace with hstem | ⟨-, hsome, hw⟩
      · exact absurd hstem (not_significant_of_fraction bounds.isFractionStem)
      · exact (plain.elim hsome hw).elim
  | fractionOption bounds digits =>
      obtain ⟨rfl, rfl, rfl⟩ := states.unique (.option bounds.isFractionStem digits)
      exact ⟨rfl, rfl, rfl⟩
  | significant bounds =>
      obtain ⟨rfl, rfl, rfl⟩ := states.unique (.stem bounds)
      exact ⟨rfl, rfl, rfl⟩
  | silent _ noFraction noSignificant =>
      rcases hplace with hstem | ⟨hfraction, -⟩
      · exact absurd hstem noSignificant
      · exact absurd hfraction noFraction

theorem otherSignificant_eq (h : t.SaysDigits d)
    (hform : ∀ least most priority, ¬ t.StatesSignificant least most priority) :
    d.minimumSignificantDigits = none ∧ d.maximumSignificantDigits = none ∧
      d.roundingPriority = none := by
  cases h with
  | fractionOption bounds digits =>
      exact absurd (.option bounds.isFractionStem digits) (hform _ _ _)
  | significant bounds => exact absurd (.stem bounds) (hform _ _ _)
  | noFraction | integer | fraction | silent => exact ⟨rfl, rfl, rfl⟩

theorem integer_eq {a : Nat} (h : t.SaysDigits d) (states : t.StatesInteger a) :
    d.minimumIntegerDigits = some a := by
  cases h with
  | noFraction word => exact absurd word states.not_asksNoFraction
  | integer zeros => exact congrArg some (zeros.count_eq.symm.trans states.count_eq)
  | fraction bounds | fractionOption bounds =>
      exact absurd bounds.isFractionStem states.not_fraction
  | significant bounds => exact absurd bounds.isSignificantDigits states.not_significant
  | silent _ _ _ noInteger => exact absurd states (noInteger a)

theorem otherInteger_eq (h : t.SaysDigits d) (hform : ∀ a, ¬ t.StatesInteger a) :
    d.minimumIntegerDigits = none := by
  cases h with
  | integer zeros => exact absurd zeros (hform _)
  | noFraction | fraction | fractionOption | significant | silent => rfl

theorem fraction_le {n : Nat} (h : t.SaysDigits d) (hleast : d.minimumFractionDigits = some least)
    (hmost : d.maximumFractionDigits = some n) : least ≤ n := by
  cases h with
  | fraction bounds | fractionOption bounds =>
      cases hleast
      cases hmost
      exact bounds.le
  | noFraction | integer | significant | silent => cases hleast

theorem significant_le {n : Nat} (h : t.SaysDigits d)
    (hleast : d.minimumSignificantDigits = some least)
    (hmost : d.maximumSignificantDigits = some n) : least ≤ n := by
  cases h with
  | fractionOption _ bounds | significant bounds =>
      cases hleast
      cases hmost
      exact bounds.le
  | noFraction | integer | fraction | silent => cases hleast

/-- No bound is greater than the text that states it is long. -/
theorem exists_le_length {n : Nat} (h : t.SaysDigits d)
    (hn : some n ∈ [d.minimumIntegerDigits, d.minimumFractionDigits, d.maximumFractionDigits,
      d.minimumSignificantDigits, d.maximumSignificantDigits]) :
    ∃ text ∈ t.stem :: t.options, n ≤ text.toList.length := by
  -- Either of a form's two bounds is at most as great as its text is long.
  have hform {text : String} {least : Nat} {most : Option Nat}
      (hle : least ≤ text.toList.length ∧ ∀ n ∈ most, n ≤ text.toList.length)
      (hbound : n = least ∨ some n = most) : n ≤ text.toList.length :=
    hbound.elim (fun heq => heq ▸ hle.1) fun heq => hle.2 n heq.symm
  cases h with
  | noFraction =>
      have hzero : n = 0 := by simpa using hn
      exact ⟨_, List.mem_cons_self, hzero ▸ Nat.zero_le _⟩
  | @integer _ a zeros =>
      have heq : n = a := by simpa using hn
      exact heq ▸ zeros.exists_le_length
  | fraction bounds =>
      exact ⟨_, List.mem_cons_self, hform bounds.le_length (by simpa using hn)⟩
  | @fractionOption _ option least least' most most' _ bounds digits =>
      have hbound : (n = least ∨ some n = most) ∨ n = least' ∨ some n = most' := by
        simpa [or_assoc] using hn
      rcases hbound with hbound | hbound
      · exact ⟨_, List.mem_cons_self, hform bounds.le_length hbound⟩
      · exact ⟨option, by simp, hform digits.le_length hbound⟩
  | @significant _ _ least most _ bounds =>
      have hbound : n = least ∨ some n = most := by simpa [SignificantDigits.settings] using hn
      exact ⟨_, List.mem_cons_self, hform bounds.le_length hbound⟩
  | silent => simp at hn

end SaysDigits

theorem length_le_utf8Length (text : List Char) : text.length ≤ utf8Length text := by
  induction text with
  | nil => exact Nat.le_refl 0
  | cons c text ih =>
      have hsize := Char.utf8Size_pos c
      simp only [utf8Length, List.foldr_cons, List.length_cons] at ih ⊢
      omega

/-- What the settings of a token set about digits is what the token states, and nothing
besides. -/
structure DigitsAsStated (t : NumberToken) (settings : NumberFormatOptions) : Prop where
  /-- A fraction stem bounds the fraction digits as it states. -/
  fraction : ∀ least most, FractionBounds t.stem.toList least most →
    settings.minimumFractionDigits = some least ∧ settings.maximumFractionDigits = most
  /-- The words that ask for no fraction allow no fraction digits. -/
  noFraction : AsksNoFraction t.stem →
    settings.minimumFractionDigits = none ∧ settings.maximumFractionDigits = some 0
  /-- No other token bounds the fraction digits. -/
  otherFraction : (∀ least most, ¬ FractionBounds t.stem.toList least most) →
    ¬ AsksNoFraction t.stem →
      settings.minimumFractionDigits = none ∧ settings.maximumFractionDigits = none
  /-- A stem, or the option of a fraction stem, bounds the significant digits as it states,
  and its letter says which bounds have priority. -/
  significant : ∀ least most priority, t.StatesSignificant least most priority →
    settings.minimumSignificantDigits = some least ∧ settings.maximumSignificantDigits = most ∧
      settings.roundingPriority = priority
  /-- No other token bounds the significant digits. -/
  otherSignificant : (∀ least most priority, ¬ t.StatesSignificant least most priority) →
    settings.minimumSignificantDigits = none ∧ settings.maximumSignificantDigits = none ∧
      settings.roundingPriority = none
  /-- Zeros bound the integer digits by their number. -/
  integer : ∀ a, t.StatesInteger a → settings.minimumIntegerDigits = some a
  /-- No other token bounds the integer digits. -/
  otherInteger : (∀ a, ¬ t.StatesInteger a) → settings.minimumIntegerDigits = none
  fractionOrdered : ∀ least most, settings.minimumFractionDigits = some least →
    settings.maximumFractionDigits = some most → least ≤ most
  significantOrdered : ∀ least most, settings.minimumSignificantDigits = some least →
    settings.maximumSignificantDigits = some most → least ≤ most
  /-- Texts that are shorter than `2 ^ 32` bytes give bounds that fit 32 bits. -/
  fits : (∀ text ∈ t.stem :: t.options, utf8Length text.toList < UInt32.size) →
    ∀ n, some n ∈ [settings.minimumIntegerDigits, settings.minimumFractionDigits,
      settings.maximumFractionDigits, settings.minimumSignificantDigits,
      settings.maximumSignificantDigits] → n < UInt32.size

/-- A token that can be interpreted bounds the digits as it states, and in no other way. -/
theorem digitsAsStated_of_interpret {t : NumberToken} {settings : NumberFormatOptions}
    (h : interpret [t] = .ok settings) : t.DigitsAsStated settings := by
  rw [interpret_singleton] at h
  have hsays := saysDigits_of_settings h
  exact {
    fraction := fun least most => hsays.fraction_eq
    noFraction := hsays.noFraction_eq
    otherFraction := fun hform => hsays.otherFraction_eq fun hstem =>
      let ⟨least, most, bounds⟩ := isFractionStem_iff.mp hstem
      hform least most bounds
    significant := fun least most priority => hsays.significant_eq
    otherSignificant := hsays.otherSignificant_eq
    integer := fun a => hsays.integer_eq
    otherInteger := hsays.otherInteger_eq
    fractionOrdered := fun least most => hsays.fraction_le
    significantOrdered := fun least most => hsays.significant_le
    fits := fun hshort n hn =>
      let ⟨text, hmem, hle⟩ := hsays.exists_le_length hn
      (hle.trans (length_le_utf8Length text.toList)).trans_lt (hshort text hmem) }

/-- A fraction stem with significant digits as its option bounds both. -/
theorem digitsAsStated_of_two_bounds :
    interpret [⟨".00##", ["@@#r"]⟩] =
      .ok { minimumFractionDigits := some 2, maximumFractionDigits := some 4
            minimumSignificantDigits := some 2, maximumSignificantDigits := some 3
            roundingPriority := some .morePrecision } ∧
    DigitsAsStated ⟨".00##", ["@@#r"]⟩
      { minimumFractionDigits := some 2, maximumFractionDigits := some 4
        minimumSignificantDigits := some 2, maximumSignificantDigits := some 3
        roundingPriority := some .morePrecision } :=
  ⟨by rfl, digitsAsStated_of_interpret (by rfl)⟩

end NumberToken

end MessagePattern
