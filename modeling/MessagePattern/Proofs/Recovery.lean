/-
# Reading what was written

Each rule of reading is followed here over the text that writing gives for its
element.  `Recovers` states the outcome in both directions at once: reading gives
the element back, up to locations and up to the end of its text, if what the
element needs was written; and if reading does give it back then that was so.
Both are needed, the first for trees that are written faithfully and the second
to see that no others are.

As with derivations, nested text enters as a hypothesis, so the rules are
independent of each other and of the depth of nesting.
-/

import MessagePattern.Proofs.Derivation
import MessagePattern.Proofs.SafeInteger
import MessagePattern.Proofs.StyleText

namespace MessagePattern

/-- Reading gives `b` back, seen through `view`, and stops in front of `tail`,
exactly if `fine` holds. -/
structure Recovers {α β : Type} (outcome : Except Failure (α × Cursor)) (view : α → β) (b : β)
    (tail : List Char) (fine : Prop) : Prop where
  complete : fine → ∃ a d, outcome = .ok (a, d) ∧ view a = b ∧ d.rest = tail
  faithful : ∀ a d, outcome = .ok (a, d) → view a = b → fine

/-- Steps that give back two things give back both of them, as long as the second
step passes on what the first one gave. -/
theorem Recovers.bind {α β γ δ : Type} {first : Except Failure (α × Cursor)}
    {next : α × Cursor → Except Failure (γ × Cursor)} {view : α → β} {b : β} {view' : γ → δ}
    {b' : δ} {mid tail : List Char} {fine fine' : Prop} (hfirst : Recovers first view b mid fine)
    (hnext : ∀ a d, view a = b → d.rest = mid → Recovers (next (a, d)) view' b' tail fine')
    (hkeeps : ∀ a d a' d', next (a, d) = .ok (a', d') → view' a' = b' → view a = b) :
    Recovers (first >>= next) view' b' tail (fine ∧ fine') where
  complete := by
    rintro ⟨hfine, hfine'⟩
    obtain ⟨a, d, hok, hview, hrest⟩ := hfirst.complete hfine
    rw [hok]
    exact (hnext a d hview hrest).complete hfine'
  faithful := by
    intro a' d' hok hview'
    obtain ⟨⟨a, d⟩, ha, hnextOk⟩ := bind_eq_ok hok
    have hview := hkeeps a d a' d' hnextOk hview'
    have hfine := hfirst.faithful a d ha hview
    obtain ⟨a₀, d₀, ha₀, -, hrest⟩ := hfirst.complete hfine
    cases ha.symm.trans ha₀
    exact ⟨hfine, (hnext a d hview hrest).faithful a' d' hnextOk hview'⟩

/-- What has to hold for anything to be given back may be taken for granted in the
rest of the argument. -/
theorem Recovers.guard {α β : Type} {outcome : Except Failure (α × Cursor)} {view : α → β} {b : β}
    {tail : List Char} {fine kept : Prop}
    (hneeds : ∀ a d, outcome = .ok (a, d) → view a = b → fine)
    (h : fine → Recovers outcome view b tail kept) :
    Recovers outcome view b tail (fine ∧ kept) where
  complete := fun ⟨hfine, hkept⟩ => (h hfine).complete hkept
  faithful a d hok hview :=
    ⟨hneeds a d hok hview, (h (hneeds a d hok hview)).faithful a d hok hview⟩

/-- The same for an element that a scope may or may not go on with. -/
structure ElementRecovers (outcome : Except Failure (Option (Element × Cursor)))
    (view : List Element → List Element) (e : Element) (tail : List Char) (fine : Prop) :
    Prop where
  complete : fine → ∃ e' d, outcome = .ok (some (e', d)) ∧ e'.seen view = e.seen view ∧
    d.rest = tail
  faithful : ∀ e' d, outcome = .ok (some (e', d)) → e'.seen view = e.seen view → fine

section Elements

variable {outcome : Except Failure (Element × Cursor)} {view : List Element → List Element}
  {e : Element} {tail : List Char} {fine : Prop}

theorem Recovers.map_some (h : Recovers outcome (Element.seen view) (e.seen view) tail fine) :
    ElementRecovers (some <$> outcome) view e tail fine where
  complete hfine := by
    obtain ⟨e', d, hok, hseen, hrest⟩ := h.complete hfine
    exact ⟨e', d, by rw [hok]; rfl, hseen, hrest⟩
  faithful e' d hok hseen := by
    obtain ⟨pair, hpair, heq⟩ := map_eq_ok hok
    cases heq
    exact h.faithful e' d hpair hseen

/-- An element with no texts in it is given back however these are seen. -/
theorem Recovers.seen (h : Recovers outcome Element.erase e.erase tail fine)
    (hflat : e.isFlat = true) : Recovers outcome (Element.seen view) (e.seen view) tail fine where
  complete hfine := by
    obtain ⟨e', d, hok, herase, hrest⟩ := h.complete hfine
    exact ⟨e', d, hok, (Element.seen_eq_iff hflat e').mpr herase, hrest⟩
  faithful e' d hok hseen := h.faithful e' d hok ((Element.seen_eq_iff hflat e').mp hseen)

/-- What is given back without its locations is given back as an element. -/
theorem Recovers.element (h : Recovers outcome Element.erase e.erase tail fine) :
    ElementRecovers (some <$> outcome) eraseElements e tail fine := by
  apply Recovers.map_some
  rwa [funext Element.seen_eraseElements]

end Elements

/-! ## Names and types -/

theorem isIdentifier_iff {text : List Char} :
    isIdentifier text = true ↔
      text ≠ [] ∧ text.all isIdentifierChar = true ∧ text.head?.any isPatternSpace = false := by
  simp [isIdentifier, and_assoc]

/-- The first scalar of a word is neither white space nor syntax. -/
theorem head?_append_of_isIdentifier {text : List Char} (h : isIdentifier text = true)
    (tail : List Char) :
    ∃ ch rest, text ++ tail = ch :: rest ∧ isIdentifierChar ch = true ∧
      isPatternSpace ch = false := by
  obtain ⟨hne, hall, hspace⟩ := isIdentifier_iff.mp h
  obtain ⟨ch, rest, rfl⟩ := List.exists_cons_of_ne_nil hne
  exact ⟨ch, rest ++ tail, rfl, List.all_eq_true.mp hall ch List.mem_cons_self, by
    simpa using hspace⟩

/-- An argument that was written is read up to what follows its name. -/
theorem readArgument_of_rest (inner : NestedReader) (o : ParseOptions) (s : Scope) {c : Cursor}
    {name : String} {stop : Char} {rest : List Char}
    (h : c.rest = '{' :: (name.toList ++ stop :: rest)) (hname : isIdentifier name.toList = true)
    (hstop : isIdentifierChar stop = false) (hspace : isPatternSpace stop = false) :
    ∃ d, readArgument inner o s c = readArgumentTail inner o s name c.position d ∧
      d.rest = stop :: rest := by
  have hbump : c.bump.rest = name.toList ++ stop :: rest := Cursor.rest_bump_cons h
  obtain ⟨ch, text, htext, hch, hchSpace⟩ := head?_append_of_isIdentifier hname (stop :: rest)
  obtain ⟨hne, hall, -⟩ := isIdentifier_iff.mp hname
  have hskip : c.bump.skipSpace = c.bump :=
    Cursor.skipSpace_eq_self (by rw [hbump, htext]; simpa using hchSpace)
  obtain ⟨d, hread, hrest⟩ := Cursor.identifier_of_rest hbump hall (by simpa using hstop)
  have hskip' : d.skipSpace = d := Cursor.skipSpace_eq_self (by rw [hrest]; simpa using hspace)
  have hclose : ch ≠ '}' := by
    rintro rfl
    revert hch
    decide
  have hempty : name ≠ "" := by simpa using hne
  refine ⟨d, ?_, hrest⟩
  simp only [readArgument, hskip, hbump, htext, if_neg hclose, hread, String.ofList_toList,
    if_neg hempty, hskip']

/-- A type that was written is recognised, and decides how reading goes on. -/
theorem readArgumentTail_of_rest (inner : NestedReader) (o : ParseOptions) (s : Scope)
    {c : Cursor} (name : String) (opening : Position) {word : String} {type : ArgumentType}
    {stop : Char} {rest : List Char} (h : c.rest = ',' :: ' ' :: (word.toList ++ stop :: rest))
    (hword : isIdentifier word.toList = true) (hstop : isIdentifierChar stop = false)
    (htype : argumentTypes.lookup word = some type) :
    ∃ d, readArgumentTail inner o s name opening c =
        (match type with
          | .number => readNumber o name opening d
          | .dateTime kind => readDateTime o kind name opening d
          | .selector plural => readSelectorArgument inner o s plural name opening d) ∧
      d.rest = stop :: rest := by
  obtain ⟨ch, text, htext, hch, hchSpace⟩ := head?_append_of_isIdentifier hword (stop :: rest)
  obtain ⟨hne, hall, -⟩ := isIdentifier_iff.mp hword
  have hskip : c.bump.skipSpace.rest = word.toList ++ stop :: rest :=
    Cursor.rest_skipSpace_of_space (Cursor.rest_bump_cons h)
      (by rw [htext]; simpa using hchSpace)
  obtain ⟨d, hread, hrest⟩ := Cursor.identifier_of_rest hskip hall (by simpa using hstop)
  have hempty : word ≠ "" := by simpa using hne
  have hnonempty : c.bump.skipSpace.rest.isEmpty = false := by simp [hskip]
  have hcomma : ¬ ',' = '}' := by decide
  refine ⟨d, ?_, hrest⟩
  simp only [readArgumentTail, h, if_neg hcomma, if_true, hnonempty, Bool.false_eq_true, if_false,
    readTypedArgument, hread, String.ofList_toList, if_neg hempty, htype]
  cases type <;> rfl

/-! ## Styles -/

/-- Texts that are found again when they stand as a style. -/
structure IsStyleText (text : List Char) : Prop where
  start : text.head?.any isPatternSpace = false
  kept : trimEnd text ≠ []
  balanced : styleMatches 0 false text

theorem IsTextStyle.isStyleText {text : List Char} (h : IsTextStyle text) : IsStyleText text where
  start := h.start
  kept := by
    rw [trimEnd_eq_self h.stop]
    exact h.nonempty
  balanced := h.balanced

theorem isStyleText_colons {text : List Char} (h : styleMatches 0 false text) :
    IsStyleText (':' :: ':' :: text) where
  start := rfl
  kept := by simp [trimEnd_colons]
  balanced := by simpa [styleMatches] using h

theorem NumberStyleWellFormed.isStyleText {o : ParseOptions} {style : Style NumberSkeleton}
    (h : NumberStyleWellFormed o style) : IsStyleText (renderNumberStyle style) := by
  cases style with
  | text name => exact IsTextStyle.isStyleText h
  | skeleton k => exact isStyleText_colons (NumberSkeleton.WellFormed.balanced h)

theorem DateTimeStyleWellFormed.isStyleText {o : ParseOptions} {style : Style DateTimeSkeleton}
    (h : DateTimeStyleWellFormed o style) : IsStyleText (renderDateTimeStyle style) := by
  cases style with
  | text name => exact IsTextStyle.isStyleText h
  | skeleton k => exact isStyleText_colons (DateTimeSkeleton.WellFormed.balanced h)

/-- Behind white space the argument may be over, and then it has no style. -/
theorem readOptionalStyle_none {c : Cursor} {space tail : List Char}
    (h : c.rest = space ++ '}' :: tail) (hspace : space.all isPatternSpace) :
    ∃ d, readOptionalStyle c = .ok (none, d) ∧ d.rest = '}' :: tail := by
  have hskip : c.skipSpace.rest = '}' :: tail := by
    rw [Cursor.rest_skipSpace, h, Cursor.dropWhile_append_of_stop hspace rfl]
  have hcomma : c.skipSpace.skip? [','] = none := Cursor.skip?_eq_none_of_head hskip (by decide)
  exact ⟨c.skipSpace, by simp only [readOptionalStyle, hcomma], hskip⟩

/-- A style is read with white space on both sides of the comma in front of it. -/
theorem readOptionalStyle_some {c : Cursor} {before behind text tail : List Char}
    (h : c.rest = before ++ ',' :: (behind ++ (text ++ '}' :: tail)))
    (hbefore : before.all isPatternSpace) (hbehind : behind.all isPatternSpace)
    (htext : IsStyleText text) :
    ∃ location d, readOptionalStyle c = .ok (some (trimEnd text, location), d) ∧
      d.rest = '}' :: tail := by
  have hskip : c.skipSpace.rest = ',' :: (behind ++ (text ++ '}' :: tail)) := by
    rw [Cursor.rest_skipSpace, h, Cursor.dropWhile_append_of_stop hbefore rfl]
  obtain ⟨comma, hcomma, hrest⟩ := Cursor.skip?_of_rest [','] hskip
  have hhead : (text ++ '}' :: tail).head?.any isPatternSpace = false := by
    have hstart := htext.start
    cases text with
    | nil => rfl
    | cons ch text => simpa using hstart
  have hspace : comma.skipSpace.rest = text ++ '}' :: tail := by
    rw [Cursor.rest_skipSpace, hrest]
    exact Cursor.dropWhile_append_of_stop hbehind hhead
  obtain ⟨location, d, hread, hd⟩ := readStyle_of_rest hspace htext.kept htext.balanced
  refine ⟨location, d, ?_, hd⟩
  simp only [readOptionalStyle, hcomma, hread]
  rfl

/-- The interpretation of a skeleton is found again. -/
theorem interpretation_eq_some {α : Type} {o : ParseOptions} {meaning : Except SkeletonError α}
    {parsed : Option α} (h : parsed.map Except.ok = interpretation o meaning) :
    (o.shouldParseSkeletons = true ∧ ∃ options, meaning = .ok options ∧ parsed = some options) ∨
      (o.shouldParseSkeletons = false ∧ parsed = none) := by
  unfold interpretation at h
  split at h
  · next hparse =>
      cases parsed with
      | none => cases h
      | some options => exact .inl ⟨hparse, options, by simpa using h.symm, rfl⟩
  · next hparse =>
      cases parsed with
      | none => exact .inr ⟨by simpa using hparse, rfl⟩
      | some options => cases h

/-- A number style that was written is made again, if no white space belonged to
the edge of its skeleton. -/
theorem numberStyle_render {o : ParseOptions} {style : Style NumberSkeleton}
    (h : NumberStyleWellFormed o style) (hreprintable : NumberStyleReprintable style)
    (location : Location) (c : Cursor) :
    ∃ again, numberStyle o (trimEnd (renderNumberStyle style)) location c = .ok again ∧
      eraseNumberStyle again = eraseNumberStyle style := by
  cases style with
  | text name =>
      refine ⟨.text name, ?_, rfl⟩
      simp only [renderNumberStyle, trimEnd_eq_self h.stop, numberStyle, h.plain,
        String.ofList_toList]
  | skeleton k =>
      have hwf : k.WellFormed o := h
      have hnonempty : (NumberSkeleton.renderTokens k.tokens).isEmpty = false := by
        simpa using NumberSkeleton.renderTokens_ne_nil hwf.nonempty hwf.distinct
      simp only [NumberStyleReprintable, isSpaceBounded, Bool.or_eq_false_iff] at hreprintable
      simp only [renderNumberStyle, trimEnd_colons, trimEnd_eq_self hreprintable.2, numberStyle,
        skeletonText?, trimStart_eq_self hreprintable.1, hnonempty, Bool.false_eq_true, if_false,
        NumberSkeleton.tokenize_renderTokens hwf.nonempty hwf.distinct]
      rcases interpretation_eq_some hwf.parsed with
        ⟨hparse, options, hoptions, hparsed⟩ | ⟨hparse, hparsed⟩
      · refine ⟨.skeleton ⟨k.tokens, location, some options⟩, ?_, ?_⟩
        · simp only [hparse, if_true, hoptions]
        · simp [eraseNumberStyle, hparsed]
      · refine ⟨.skeleton ⟨k.tokens, location, none⟩, ?_, ?_⟩
        · simp only [hparse, Bool.false_eq_true, if_false]
        · simp [eraseNumberStyle, hparsed]

/-- The tokens of a number skeleton that was made are those of its text. -/
theorem tokenize_of_numberStyle {o : ParseOptions} {text : List Char} {location : Location}
    {c : Cursor} {k : NumberSkeleton}
    (h : numberStyle o (':' :: ':' :: text) location c = .ok (.skeleton k)) :
    NumberSkeleton.tokenize (trimStart text) = .ok k.tokens := by
  simp only [numberStyle, skeletonText?] at h
  split at h
  · cases h
  split at h
  · cases h
  · next tokens htokens =>
      split at h
      · split at h
        · cases h
        · cases h
          exact htokens
      · cases h
        exact htokens

/-- If the same number style is made again, then no white space belonged to the
edge of its skeleton. -/
theorem reprintable_of_numberStyle {o : ParseOptions} {style again : Style NumberSkeleton}
    {location : Location} {c : Cursor} (h : NumberStyleWellFormed o style)
    (hagain : numberStyle o (trimEnd (renderNumberStyle style)) location c = .ok again)
    (hsame : eraseNumberStyle again = eraseNumberStyle style) : NumberStyleReprintable style := by
  cases style with
  | text name => trivial
  | skeleton k =>
      have hwf : k.WellFormed o := h
      cases again with
      | text name => cases hsame
      | skeleton k' =>
          have htokens : k'.tokens = k.tokens := by
            simp only [eraseNumberStyle, Style.skeleton.injEq, NumberSkeleton.mk.injEq] at hsame
            exact hsame.1
          simp only [renderNumberStyle, trimEnd_colons] at hagain
          have hinked := (NumberSkeleton.tokenize_eq_ok (tokenize_of_numberStyle hagain)).2.2
          rw [NumberStyleReprintable, Bool.eq_false_iff]
          intro hbounded
          -- Reading the same tokens again means that trimming took nothing away.
          apply inked_trim_ne (NumberSkeleton.head?_renderTokens hwf.distinct)
            (NumberSkeleton.getLast?_renderTokens hwf.distinct) hbounded
          rw [← hinked, htokens]

/-- A date or time style that was written is made again. -/
theorem dateTimeStyle_render {o : ParseOptions} {style : Style DateTimeSkeleton}
    (h : DateTimeStyleWellFormed o style) (location element : Location) (c : Cursor) :
    ∃ again, dateTimeStyle o (trimEnd (renderDateTimeStyle style)) location element c = .ok again ∧
      eraseDateTimeStyle again = eraseDateTimeStyle style := by
  cases style with
  | text name =>
      refine ⟨.text name, ?_, rfl⟩
      simp only [renderDateTimeStyle, trimEnd_eq_self h.stop, dateTimeStyle, h.plain,
        String.ofList_toList]
  | skeleton k =>
      have hwf : k.WellFormed o := h
      have htrimmed := hwf.trimmed
      have hnonempty : k.pattern.toList.isEmpty = false := by simpa using hwf.nonempty
      simp only [isSpaceBounded, Bool.or_eq_false_iff] at htrimmed
      simp only [renderDateTimeStyle, trimEnd_colons, trimEnd_eq_self htrimmed.2, dateTimeStyle,
        skeletonText?, trimStart_eq_self htrimmed.1, hnonempty, Bool.false_eq_true, if_false,
        String.ofList_toList]
      rcases interpretation_eq_some hwf.parsed with
        ⟨hparse, options, hoptions, hparsed⟩ | ⟨hparse, hparsed⟩
      · refine ⟨.skeleton ⟨k.pattern, location, some options⟩, ?_, ?_⟩
        · simp only [hparse, if_true, hoptions]
        · simp [eraseDateTimeStyle, hparsed]
      · refine ⟨.skeleton ⟨k.pattern, location, none⟩, ?_, ?_⟩
        · simp only [hparse, Bool.false_eq_true, if_false]
        · simp [eraseDateTimeStyle, hparsed]

/-- The pattern of a date-time skeleton that was made is its text. -/
theorem pattern_of_dateTimeStyle {o : ParseOptions} {text : List Char}
    {location element : Location} {c : Cursor} {k : DateTimeSkeleton}
    (h : dateTimeStyle o (':' :: ':' :: text) location element c = .ok (.skeleton k)) :
    k.pattern.toList = trimStart text := by
  simp only [dateTimeStyle, skeletonText?] at h
  split at h
  · cases h
  split at h
  · split at h
    · cases h
    · cases h
      simp
  · cases h
    simp

/-! ## Arguments without branches -/

theorem readArgument_argument (inner : NestedReader) (o : ParseOptions) (s : Scope) {c : Cursor}
    {name : String} {location : Location} {tail : List Char}
    (h : c.rest = renderElement s.plural (.argument name location) ++ tail)
    (hname : isIdentifier name.toList = true) :
    Recovers (readArgument inner o s c) Element.erase (Element.argument name location).erase tail
      True := by
  have hrest : c.rest = '{' :: (name.toList ++ '}' :: tail) := by simp [h, renderElement]
  obtain ⟨d, hread, hd⟩ := readArgument_of_rest inner o s hrest hname (by decide) (by decide)
  refine ⟨fun _ => ⟨.argument name (d.bump.since c.position), d.bump, ?_, rfl,
    Cursor.rest_bump_cons hd⟩, fun _ _ _ _ => trivial⟩
  simp only [hread, readArgumentTail, hd, if_true]

/-- What stands between the type of a number, date or time argument and its end. -/
def styleSuffix (style : Option (List Char)) : List Char :=
  (style.map fun text => ',' :: ' ' :: text).getD []

theorem renderSimple_append (name type : String) (style : Option (List Char)) (tail : List Char) :
    ∃ stop rest, renderSimple name type style ++ tail =
        '{' :: (name.toList ++ ',' :: ' ' :: (type.toList ++ stop :: rest)) ∧
      stop :: rest = styleSuffix style ++ '}' :: tail ∧ isIdentifierChar stop = false := by
  cases style with
  | none => exact ⟨'}', tail, by simp [renderSimple], rfl, by decide⟩
  | some text => exact ⟨',', ' ' :: (text ++ '}' :: tail), by simp [renderSimple], rfl, by decide⟩

/-- A style is made again, up to the location of its skeleton, exactly if `fine`
holds. -/
structure Remakes {σ : Type} (made : Except Failure (Style σ)) (erase : Style σ → Style σ)
    (style : Style σ) (fine : Prop) : Prop where
  complete : fine → ∃ again, made = .ok again ∧ erase again = erase style
  faithful : ∀ again, made = .ok again → erase again = erase style → fine

section Readers

variable {o : ParseOptions} {kind : DateTimeKind} {name : String} {location : Location}
  {before behind text tail : List Char} {fine : Prop} {c : Cursor}

theorem readNumber_none (opening : Position) (h : c.rest = before ++ '}' :: tail)
    (hbefore : before.all isPatternSpace) :
    Recovers (readNumber o name opening c) Element.erase (Element.number name none location).erase
      tail True := by
  obtain ⟨styled, hread, hstyled⟩ := readOptionalStyle_none h hbefore
  obtain ⟨d, hclose, hd⟩ := Cursor.closeBrace_of_rest opening hstyled
  refine ⟨fun _ => ⟨.number name none (d.since opening), d, ?_, rfl, hd⟩, fun _ _ _ _ => trivial⟩
  simp only [readNumber, hread]
  simp [bind, Except.bind, hclose]

/-- A number argument is given back if its style is made again. -/
theorem readNumber_some {k : Style NumberSkeleton} (opening : Position)
    (h : c.rest = before ++ ',' :: (behind ++ (text ++ '}' :: tail)))
    (hbefore : before.all isPatternSpace) (hbehind : behind.all isPatternSpace)
    (htext : IsStyleText text)
    (hmade : ∀ (place : Location) (d : Cursor),
      Remakes (numberStyle o (trimEnd text) place d) eraseNumberStyle k fine) :
    Recovers (readNumber o name opening c) Element.erase
      (Element.number name (some k) location).erase tail fine := by
  obtain ⟨styleLocation, styled, hread, hstyled⟩ :=
    readOptionalStyle_some h hbefore hbehind htext
  obtain ⟨d, hclose, hd⟩ := Cursor.closeBrace_of_rest opening hstyled
  have hnumber : readNumber o name opening c =
      (do
        let made ← numberStyle o (trimEnd text) styleLocation d
        .ok (.number name (some made) (d.since opening), d)) := by
    simp only [readNumber, hread]
    simp [bind, Except.bind, hclose]
  rw [hnumber]
  constructor
  · intro hfine
    obtain ⟨again, hagain, hsame⟩ := (hmade styleLocation d).complete hfine
    refine ⟨.number name (some again) (d.since opening), d, by rw [hagain]; rfl, ?_, hd⟩
    simp [Element.erase, hsame]
  · intro e d' hok hsame
    obtain ⟨again, hagain, hpair⟩ := bind_eq_ok hok
    cases hpair
    simp only [Element.erase, Option.map_some, Element.number.injEq, Option.some.injEq] at hsame
    exact (hmade styleLocation d).faithful again hagain hsame.2.1

theorem readDateTime_none (opening : Position) (h : c.rest = before ++ '}' :: tail)
    (hbefore : before.all isPatternSpace) :
    Recovers (readDateTime o kind name opening c) Element.erase
      (Element.dateTime kind name none location).erase tail True := by
  obtain ⟨styled, hread, hstyled⟩ := readOptionalStyle_none h hbefore
  obtain ⟨d, hclose, hd⟩ := Cursor.closeBrace_of_rest opening hstyled
  refine ⟨fun _ => ⟨.dateTime kind name none (d.since opening), d, ?_, rfl, hd⟩,
    fun _ _ _ _ => trivial⟩
  simp only [readDateTime, hread]
  simp [bind, Except.bind, hclose]

/-- A date or time argument is given back if its style is made again. -/
theorem readDateTime_some {k : Style DateTimeSkeleton} (opening : Position)
    (h : c.rest = before ++ ',' :: (behind ++ (text ++ '}' :: tail)))
    (hbefore : before.all isPatternSpace) (hbehind : behind.all isPatternSpace)
    (htext : IsStyleText text)
    (hmade : ∀ (place element : Location) (d : Cursor),
      Remakes (dateTimeStyle o (trimEnd text) place element d) eraseDateTimeStyle k fine) :
    Recovers (readDateTime o kind name opening c) Element.erase
      (Element.dateTime kind name (some k) location).erase tail fine := by
  obtain ⟨styleLocation, styled, hread, hstyled⟩ :=
    readOptionalStyle_some h hbefore hbehind htext
  obtain ⟨d, hclose, hd⟩ := Cursor.closeBrace_of_rest opening hstyled
  have hdateTime : readDateTime o kind name opening c =
      (do
        let made ← dateTimeStyle o (trimEnd text) styleLocation (d.since opening) d
        .ok (.dateTime kind name (some made) (d.since opening), d)) := by
    simp only [readDateTime, hread]
    simp [bind, Except.bind, hclose]
  rw [hdateTime]
  constructor
  · intro hfine
    obtain ⟨again, hagain, hsame⟩ := (hmade styleLocation (d.since opening) d).complete hfine
    refine ⟨.dateTime kind name (some again) (d.since opening), d, by rw [hagain]; rfl, ?_, hd⟩
    simp [Element.erase, hsame]
  · intro e d' hok hsame
    obtain ⟨again, hagain, hpair⟩ := bind_eq_ok hok
    cases hpair
    simp only [Element.erase, Option.map_some, Element.dateTime.injEq, Option.some.injEq] at hsame
    exact (hmade styleLocation (d.since opening) d).faithful again hagain hsame.2.2.1

theorem readNumber_recovers {style : Option (Style NumberSkeleton)} (opening : Position)
    (h : c.rest = styleSuffix (style.map renderNumberStyle) ++ '}' :: tail)
    (hstyle : ∀ k ∈ style, NumberStyleWellFormed o k) :
    Recovers (readNumber o name opening c) Element.erase (Element.number name style location).erase
      tail (∀ k ∈ style, NumberStyleReprintable k) := by
  cases style with
  | none => simpa using readNumber_none opening h (List.all_nil (f := isPatternSpace))
  | some k =>
      have hk : NumberStyleWellFormed o k := hstyle k rfl
      have hspace : [' '].all isPatternSpace := by decide
      simpa using readNumber_some opening h (List.all_nil (f := isPatternSpace)) hspace
        hk.isStyleText fun place d =>
          ⟨fun hfine => numberStyle_render hk hfine place d,
            fun again hagain hsame => reprintable_of_numberStyle hk hagain hsame⟩

theorem readDateTime_recovers {style : Option (Style DateTimeSkeleton)} (opening : Position)
    (h : c.rest = styleSuffix (style.map renderDateTimeStyle) ++ '}' :: tail)
    (hstyle : ∀ k ∈ style, DateTimeStyleWellFormed o k) :
    Recovers (readDateTime o kind name opening c) Element.erase
      (Element.dateTime kind name style location).erase tail True := by
  cases style with
  | none => exact readDateTime_none opening h (List.all_nil (f := isPatternSpace))
  | some k =>
      have hk : DateTimeStyleWellFormed o k := hstyle k rfl
      have hspace : [' '].all isPatternSpace := by decide
      exact readDateTime_some opening h (List.all_nil (f := isPatternSpace)) hspace
        hk.isStyleText fun place element d =>
          ⟨fun _ => dateTimeStyle_render hk place element d, fun _ _ _ => trivial⟩

end Readers

theorem readArgument_number (inner : NestedReader) {o : ParseOptions} (s : Scope) {c : Cursor}
    {name : String} {style : Option (Style NumberSkeleton)} {location : Location}
    {tail : List Char}
    (h : c.rest = renderElement s.plural (.number name style location) ++ tail)
    (hname : isIdentifier name.toList = true) (hstyle : ∀ k ∈ style, NumberStyleWellFormed o k) :
    Recovers (readArgument inner o s c) Element.erase (Element.number name style location).erase
      tail (∀ k ∈ style, NumberStyleReprintable k) := by
  obtain ⟨stop, rest, hsimple, hsuffix, hstop⟩ :=
    renderSimple_append name "number" (style.map renderNumberStyle) tail
  rw [renderElement, hsimple] at h
  obtain ⟨named, hread, hnamed⟩ := readArgument_of_rest inner o s h hname (by decide) (by decide)
  obtain ⟨typed, hread', htyped⟩ :=
    readArgumentTail_of_rest inner o s name c.position hnamed (by decide) hstop
      (show argumentTypes.lookup "number" = some .number by decide)
  rw [hread, hread']
  exact readNumber_recovers c.position (htyped.trans hsuffix) hstyle

theorem lookup_dateTimeKind (kind : DateTimeKind) :
    argumentTypes.lookup kind.keyword = some (.dateTime kind) ∧
      isIdentifier kind.keyword.toList = true := by
  cases kind <;> decide

theorem readArgument_dateTime (inner : NestedReader) {o : ParseOptions} (s : Scope) {c : Cursor}
    {kind : DateTimeKind} {name : String} {style : Option (Style DateTimeSkeleton)}
    {location : Location} {tail : List Char}
    (h : c.rest = renderElement s.plural (.dateTime kind name style location) ++ tail)
    (hname : isIdentifier name.toList = true) (hstyle : ∀ k ∈ style, DateTimeStyleWellFormed o k) :
    Recovers (readArgument inner o s c) Element.erase
      (Element.dateTime kind name style location).erase tail True := by
  obtain ⟨stop, rest, hsimple, hsuffix, hstop⟩ :=
    renderSimple_append name kind.keyword (style.map renderDateTimeStyle) tail
  obtain ⟨hlookup, hkeyword⟩ := lookup_dateTimeKind kind
  rw [renderElement, hsimple] at h
  obtain ⟨named, hread, hnamed⟩ := readArgument_of_rest inner o s h hname (by decide) (by decide)
  obtain ⟨typed, hread', htyped⟩ :=
    readArgumentTail_of_rest inner o s name c.position hnamed hkeyword hstop hlookup
  rw [hread, hread']
  exact readDateTime_recovers c.position (htyped.trans hsuffix) hstyle

end MessagePattern
