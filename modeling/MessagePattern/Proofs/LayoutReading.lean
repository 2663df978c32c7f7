/-
# White space between the parts of an argument

However an argument is laid out, it is read as the same element, as long as no
directional mark is taken for a part of a word or a style; and if one is, then the
element is not read.  So white space between parts is insignificant for exactly the
neat layouts.

The argument follows the readers part by part.  At each gap there are two cases:
the reader in front of the gap stops at it, or it takes a part of the gap with it
and gives another name, type, style or selector than the element has.
-/

import MessagePattern.Proofs.Layout
import MessagePattern.Proofs.RoundTrip

namespace MessagePattern

/-! ## Gaps -/

/-- In pattern white space the marks are those that belong to words and those that
are not trimmed. -/
theorem classes_of_isPatternSpace {c : Char} (h : isPatternSpace c = true) :
    isIdentifierChar c = isMark c ∧ isSpace c = !isMark c := by
  have hcode : c.toNat ∈ [9, 10, 11, 12, 13, 32, 0x85, 0x200E, 0x200F, 0x2028, 0x2029] := by
    simp only [isPatternSpace, CharClass.within, CharClass.patternWhiteSpace, List.any_cons,
      List.any_nil, Bool.or_false, Bool.or_eq_true, Bool.and_eq_true, decide_eq_true_eq] at h
    simp only [List.mem_cons, List.not_mem_nil, or_false]
    omega
  have hall : ∀ n ∈ [9, 10, 11, 12, 13, 32, 0x85, 0x200E, 0x200F, 0x2028, 0x2029],
      isIdentifierChar (Char.ofNat n) = isMark (Char.ofNat n) ∧
        isSpace (Char.ofNat n) = !isMark (Char.ofNat n) := by
    decide
  simpa using hall c.toNat hcode

namespace Gap

variable (g : Gap)

theorem classes {c : Char} (h : c ∈ g.chars) :
    isIdentifierChar c = isMark c ∧ isSpace c = !isMark c :=
  classes_of_isPatternSpace (List.all_eq_true.mp g.space c h)

/-- What a word in front of the gap takes of it. -/
def joined : List Char := g.chars.takeWhile isIdentifierChar

/-- What a word in front of the gap leaves of it. -/
def left : Gap where
  chars := g.chars.dropWhile isIdentifierChar
  space := by
    rw [List.all_eq_true]
    intro c hc
    exact List.all_eq_true.mp g.space c ((List.dropWhile_sublist _).subset hc)

theorem joined_append_left : g.joined ++ g.left.chars = g.chars :=
  List.takeWhile_append_dropWhile

theorem parts_iff : g.Parts ↔ g.joined = [] := by
  have hclasses := fun c => @classes g c
  unfold Parts joined
  cases hchars : g.chars with
  | nil => simp
  | cons c chars =>
      rw [hchars] at hclasses
      simp [List.takeWhile_cons, (hclasses c List.mem_cons_self).1]

theorem left_of_parts (h : g.Parts) : g.left.chars = g.chars := by
  have happend := g.joined_append_left
  rwa [g.parts_iff.mp h, List.nil_append] at happend

theorem trims_iff : g.Trims ↔ g.chars.all isSpace = true := by
  rw [Trims, List.any_eq_false, List.all_eq_true]
  refine forall₂_congr fun c hc => ?_
  rw [(g.classes hc).2]
  simp

/-- The marks that a word takes are no part of a word without marks. -/
theorem parts_of_append {word : List Char} (h : (word ++ g.joined).any isMark = false) :
    g.Parts := by
  rw [parts_iff, ← List.isEmpty_iff]
  cases hjoined : g.joined with
  | nil => rfl
  | cons c rest =>
      have hc : c ∈ g.joined := hjoined ▸ List.mem_cons_self
      have hword : isIdentifierChar c = true := List.all_eq_true.mp List.all_takeWhile c hc
      rw [(g.classes ((List.takeWhile_sublist _).subset hc)).1] at hword
      have hnot := List.any_eq_false.mp h c (List.mem_append_right _ hc)
      contradiction

/-- A word is read as itself exactly if the gap behind it does not run into it. -/
theorem ofList_append_joined (word : String) :
    String.ofList (word.toList ++ g.joined) = word ↔ g.Parts := by
  rw [parts_iff]
  constructor
  · intro h
    have hlist := congrArg String.toList h
    simpa using hlist
  · intro h
    simp [h]

theorem rest_skipSpace {tail : List Char} {c : Cursor} (h : c.rest = g.chars ++ tail)
    (hstop : tail.head?.any isPatternSpace = false) : c.skipSpace.rest = tail := by
  rw [Cursor.rest_skipSpace, h, Cursor.dropWhile_append_of_stop g.space hstop]

/-- A word is read with what it takes of the gap behind it. -/
theorem identifier_of_rest {word tail : List Char} {c : Cursor}
    (h : c.rest = word ++ (g.chars ++ tail)) (hword : word.all isIdentifierChar)
    (hstop : tail.head?.any isIdentifierChar = false) :
    ∃ d, c.identifier = (String.ofList (word ++ g.joined), d) ∧
      d.rest = g.left.chars ++ tail := by
  apply Cursor.identifier_of_rest
  · rw [h, ← g.joined_append_left]
    simp
  · simp [hword, joined]
  · rw [List.head?_append]
    cases hhead : g.left.chars.head? with
    | none => simpa using hstop
    | some c =>
        have hnot := List.head?_dropWhile_not isIdentifierChar g.chars
        rw [show (g.chars.dropWhile isIdentifierChar).head? = some c from hhead] at hnot
        simpa using hnot

end Gap

/-! ## Names and types -/

/-- The words for types are words, and have no marks in them. -/
theorem word_of_lookup {word : String} {type : ArgumentType}
    (h : argumentTypes.lookup word = some type) :
    isIdentifier word.toList = true ∧ word.toList.any isMark = false := by
  have hall : ∀ pair ∈ argumentTypes,
      isIdentifier pair.1.toList = true ∧ pair.1.toList.any isMark = false := by
    decide
  obtain ⟨before, behind, hpairs, -⟩ := List.lookup_eq_some_iff.mp h
  exact hall (word, type) (by simp [hpairs])

section Heads

variable {inner : NestedReader} {o : ParseOptions} {s : Scope} {c : Cursor} {name : String}

/-- What is read behind an opening brace has the name that stands there, and has a
type unless the argument is over behind its name. -/
theorem exists_nameRead_of_readArgument {e : Element} {d : Cursor}
    (hbrace : ∃ text, c.rest = '{' :: text) (h : readArgument inner o s c = .ok (e, d)) :
    ∃ name named, NameRead c name named ∧ e.name? = some name ∧
      ((∃ text, named.rest = '}' :: text) ∨ ∃ type typed, TypeRead c name type typed) := by
  have hread := elementRead_of_readArgument (R := inner.Gives) (fun _ _ _ _ => id) hbrace h
  obtain ⟨text, hrest⟩ := hbrace
  cases hread with
  | literal begins =>
      rw [hrest] at begins
      exact absurd rfl begins
  | argument named closed => exact ⟨_, _, named, rfl, .inl closed⟩
  | number head | dateTime head | selector head =>
      obtain ⟨named, hnamed, -⟩ := id head
      exact ⟨_, named, hnamed, rfl, .inr ⟨_, _, head⟩⟩
  | pound plural sign =>
      obtain ⟨text', hsign⟩ := sign
      cases hrest.symm.trans hsign
  | selfClosing tags begins | tag tags begins =>
      obtain ⟨letter, text', hbegins, -⟩ := begins
      cases hrest.symm.trans hbegins

/-- A name is read with what it takes of the gap behind it. -/
theorem exists_nameRead {before behind : Gap} {stop : Char} {rest : List Char}
    (h : c.rest = '{' :: (before.chars ++ (name.toList ++ (behind.chars ++ stop :: rest))))
    (hname : isIdentifier name.toList = true) (hstop : isIdentifierChar stop = false)
    (hspace : isPatternSpace stop = false) :
    ∃ d, NameRead c (String.ofList (name.toList ++ behind.joined)) d ∧ d.rest = stop :: rest := by
  obtain ⟨hne, hall, -⟩ := isIdentifier_iff.mp hname
  obtain ⟨ch, text, htext, -, hch⟩ :=
    head?_append_of_isIdentifier hname (behind.chars ++ stop :: rest)
  have hbegin := before.rest_skipSpace (Cursor.rest_bump_cons h) (by rw [htext]; simpa using hch)
  obtain ⟨named, hread, hnamed⟩ := behind.identifier_of_rest hbegin hall (by simpa using hstop)
  refine ⟨named.skipSpace, ⟨⟨_, h⟩, ?_, by rw [hread], by rw [hread]⟩, ?_⟩
  · have hword : name ≠ "" := by simpa using hne
    simp [hword]
  · exact behind.left.rest_skipSpace hnamed (by simpa using hspace)

/-- An argument without a type is given back if its name is. -/
theorem readArgument_layout {before behind : Gap} {location : Location} {tail : List Char}
    (h : c.rest = '{' :: (before.chars ++ (name.toList ++ (behind.chars ++ '}' :: tail))))
    (hname : isIdentifier name.toList = true) :
    Recovers (readArgument inner o s c) Element.erase (Element.argument name location).erase tail
      behind.Parts := by
  obtain ⟨d, hnamed, hd⟩ := exists_nameRead h hname (by decide) (by decide)
  have hread : readArgument inner o s c =
      .ok (.argument (String.ofList (name.toList ++ behind.joined)) (d.bump.since c.position),
        d.bump) := by
    rw [readArgument_of_named hnamed]
    simp only [readArgumentTail, hd, if_true]
  rw [hread, ← behind.ofList_append_joined name]
  constructor
  · intro hword
    exact ⟨_, _, rfl, by simp only [Element.erase, hword], Cursor.rest_bump_cons hd⟩
  · intro e d' hok hsame
    cases hok
    simpa only [Element.erase, Element.argument.injEq, and_true] using hsame

/-- A typed argument is read up to its type, with what its name and its type take of
the gaps behind them. -/
theorem HeadLayout.exists_nameRead (head : HeadLayout) {word : String} {rest : List Char}
    (h : c.rest = head.text name word ++ rest) (hname : isIdentifier name.toList = true)
    (hword : isIdentifier word.toList = true) (hstop : rest.head?.any isIdentifierChar = false) :
    ∃ named d, NameRead c (String.ofList (name.toList ++ head.behindName.joined)) named ∧
      (∃ text, named.rest = ',' :: text) ∧
      named.bump.skipSpace.identifier =
        (String.ofList (word.toList ++ head.behindType.joined), d) ∧
      d.rest = head.behindType.left.chars ++ rest := by
  have htext : c.rest = '{' :: (head.behindBrace.chars ++ (name.toList ++ (head.behindName.chars ++
      ',' :: (head.behindComma.chars ++ (word.toList ++ (head.behindType.chars ++ rest)))))) := by
    simpa [HeadLayout.text] using h
  obtain ⟨named, hnamed, hcomma⟩ :=
    MessagePattern.exists_nameRead htext hname (by decide) (by decide)
  obtain ⟨-, hall, -⟩ := isIdentifier_iff.mp hword
  obtain ⟨ch, text, hhead, -, hch⟩ :=
    head?_append_of_isIdentifier hword (head.behindType.chars ++ rest)
  have hbegin := head.behindComma.rest_skipSpace (Cursor.rest_bump_cons hcomma)
    (by rw [hhead]; simpa using hch)
  obtain ⟨d, hread, hd⟩ := head.behindType.identifier_of_rest hbegin hall hstop
  exact ⟨named, d, hnamed, ⟨_, hcomma⟩, hread, hd⟩

/-- A typed argument is read as its type asks for, exactly if no mark runs into its
name or its type. -/
theorem Recovers.of_head {head : HeadLayout} {word : String} {type : ArgumentType} {e : Element}
    {rest tail : List Char} {kept : Prop} (h : c.rest = head.text name word ++ rest)
    (hname : isIdentifier name.toList = true) (htype : argumentTypes.lookup word = some type)
    (hstop : rest.head?.any isIdentifierChar = false) (hnamed : e.name? = some name)
    (hread : ∀ d : Cursor, d.rest = head.behindType.chars ++ rest →
      Recovers (readTyped inner o s name c.position d type) Element.erase e.erase tail kept) :
    Recovers (readArgument inner o s c) Element.erase e.erase tail (head.Neat ∧ kept) := by
  obtain ⟨named, d, hname', hcomma, hword, hd⟩ :=
    head.exists_nameRead h hname (word_of_lookup htype).1 hstop
  -- With marks the name is another one, and the type is none.
  apply Recovers.guard
  · intro e' d' hok hsame
    obtain ⟨name', named', hnamed', hnames, hend⟩ :=
      exists_nameRead_of_readArgument ⟨_, h⟩ hok
    obtain ⟨rfl, rfl⟩ := hnamed'.unique hname'
    rw [← name?_erase, hsame, name?_erase, hnamed, Option.some.injEq] at hnames
    refine ⟨(head.behindName.ofList_append_joined _).mp hnames.symm, ?_⟩
    rcases hend with ⟨text, hclose⟩ | ⟨type', typed, named', hnamed', -, hlookup, -⟩
    · obtain ⟨text', hcomma⟩ := hcomma
      cases hclose.symm.trans hcomma
    · obtain ⟨-, rfl⟩ := hnamed'.unique hname'
      rw [hword] at hlookup
      exact head.behindType.parts_of_append (by simpa using (word_of_lookup hlookup).2)
  · intro hneat
    rw [(head.behindName.ofList_append_joined _).mpr hneat.behindName] at hname'
    rw [(head.behindType.ofList_append_joined _).mpr hneat.behindType] at hword
    rw [head.behindType.left_of_parts hneat.behindType] at hd
    have htyped : TypeRead c name type d :=
      ⟨named, hname', hcomma, by rw [hword]; exact htype, by rw [hword]⟩
    rw [readArgument_of_typed htyped]
    exact hread d hd

end Heads

/-! ## Styles -/

namespace Gap

variable (g : Gap)

/-- What a text in front of the gap keeps of it. -/
def kept : Gap where
  chars := trimEnd g.chars
  space := by
    obtain ⟨space, hchars, -⟩ := trimEnd_append g.chars
    have hall := g.space
    rw [hchars, List.all_append, Bool.and_eq_true] at hall
    exact hall.1

theorem kept_eq_nil_iff : g.kept.chars = [] ↔ g.Trims :=
  trimEnd_eq_nil_iff.trans g.trims_iff.symm

theorem trimEnd_append {text : List Char} (h : text.getLast?.any isSpace = false) :
    trimEnd (text ++ g.chars) = text ++ g.kept.chars :=
  trimEnd_append_of_last h g.chars

theorem inked_chars : NumberSkeleton.inked g.chars = [] := by
  rw [NumberSkeleton.inked, List.filter_eq_nil_iff]
  intro c hc
  simpa using List.all_eq_true.mp g.space c hc

/-- A style can stand with the gap behind it. -/
theorem isStyleText_append {text : List Char} (h : IsStyleText text) :
    IsStyleText (text ++ g.chars) where
  start := by
    have hstart := h.start
    cases text with
    | nil => exact absurd rfl h.kept
    | cons c text => simpa using hstart
  kept := by
    intro hnil
    rw [trimEnd_eq_nil_iff, List.all_append, Bool.and_eq_true] at hnil
    exact h.kept (trimEnd_eq_nil_iff.mpr hnil.1)
  balanced := by
    rw [← styleMatches_inked, NumberSkeleton.inked_append, g.inked_chars, List.append_nil,
      styleMatches_inked]
    exact h.balanced

/-- A text does not become a skeleton by the gap behind it. -/
theorem skeletonText?_append {text : List Char} (hne : text ≠ []) (h : skeletonText? text = none) :
    skeletonText? (text ++ g.chars) = none := by
  match text, hne with
  | [c], _ =>
      cases hchars : g.chars with
      | nil => exact h
      | cons d chars =>
          have hd : d ≠ ':' := by
            rintro rfl
            have hspace := List.all_eq_true.mp g.space ':' (by simp [hchars])
            exact absurd hspace (by decide)
          simp [skeletonText?, hd]
  | c :: d :: text, _ =>
      simp only [List.cons_append, skeletonText?] at h ⊢
      split at h
      · cases h
      · next hcolons =>
          split
          · next heq =>
              cases heq
              exact absurd rfl (hcolons _)
          · rfl

/-- The pieces of a text are told apart by the gap behind them as by its end. -/
theorem pieces_append (text : List Char) :
    NumberSkeleton.pieces (text ++ g.chars) = NumberSkeleton.pieces text := by
  obtain ⟨chars, hspace⟩ := g
  induction chars generalizing text with
  | nil => rw [List.append_nil]
  | cons c chars ih =>
      rw [List.all_cons, Bool.and_eq_true] at hspace
      have hnone : NumberSkeleton.pieces chars = [] := ih [] hspace.2
      rw [NumberSkeleton.pieces_append_cons text chars hspace.1, hnone, List.append_nil]

theorem tokenize_append (text : List Char) :
    NumberSkeleton.tokenize (text ++ g.chars) = NumberSkeleton.tokenize text := by
  rw [NumberSkeleton.tokenize, NumberSkeleton.tokenize, g.pieces_append]

end Gap

/-- A style that is text is made again exactly if the gap behind it is trimmed off. -/
theorem remakes_text {σ : Type} (erase : Style σ → Style σ)
    (herase : ∀ t, erase (.text t) = .text t) (g : Gap) {name : String}
    (h : IsTextStyle name.toList) :
    Remakes (.ok (.text (String.ofList (trimEnd (name.toList ++ g.chars))))) erase (.text name)
      g.Trims := by
  rw [g.trimEnd_append h.stop, ← g.kept_eq_nil_iff]
  constructor
  · intro hnil
    exact ⟨_, rfl, by rw [hnil, List.append_nil, String.ofList_toList]⟩
  · intro again hagain hsame
    cases hagain
    rw [herase, herase, Style.text.injEq] at hsame
    have hlist := congrArg String.toList hsame
    simpa using hlist

theorem skeletonText?_of_isTextStyle (g : Gap) {text : List Char} (h : IsTextStyle text) :
    skeletonText? (trimEnd (text ++ g.chars)) = none := by
  rw [g.trimEnd_append h.stop]
  exact g.kept.skeletonText?_append h.nonempty h.plain

/-- A number style is made again behind any gap if it is a skeleton, and otherwise
exactly if the gap is trimmed off. -/
theorem remakes_numberStyle {o : ParseOptions} (g : Gap) {style : Style NumberSkeleton}
    (h : NumberStyleWellFormed o style) (hreprintable : NumberStyleReprintable style)
    (location : Location) (c : Cursor) :
    Remakes (numberStyle o (trimEnd (renderNumberStyle style ++ g.chars)) location c)
      eraseNumberStyle style (∀ name, style = .text name → g.Trims) := by
  cases style with
  | text name =>
      have htext : IsTextStyle name.toList := h
      have hmade := remakes_text eraseNumberStyle (fun _ => rfl) g htext
      rw [numberStyle, renderNumberStyle, skeletonText?_of_isTextStyle g htext]
      refine ⟨fun htrims => hmade.complete (htrims name rfl), ?_⟩
      rintro again hagain hsame _ -
      exact hmade.faithful again hagain hsame
  | skeleton k =>
      have hwf : k.WellFormed o := h
      have hbounds := hreprintable
      simp only [NumberStyleReprintable, isSpaceBounded, Bool.or_eq_false_iff] at hbounds
      have hne := NumberSkeleton.renderTokens_ne_nil hwf.nonempty hwf.distinct
      have hhead : (NumberSkeleton.renderTokens k.tokens ++ g.kept.chars).head?.any isSpace =
          false := by
        rw [List.head?_append_of_ne_nil _ hne]
        exact hbounds.1
      -- Marks that are left behind the tokens part them from nothing.
      have hsame : numberStyle o (trimEnd (renderNumberStyle (.skeleton k) ++ g.chars)) location c =
          numberStyle o (trimEnd (renderNumberStyle (.skeleton k))) location c := by
        simp only [renderNumberStyle, List.cons_append, trimEnd_colons,
          g.trimEnd_append hbounds.2, trimEnd_eq_self hbounds.2, numberStyle, skeletonText?,
          trimStart_eq_self hhead, trimStart_eq_self hbounds.1, g.kept.tokenize_append]
        simp [hne]
      rw [hsame]
      refine ⟨fun _ => numberStyle_render h hreprintable location c, ?_⟩
      rintro _ _ _ name ⟨⟩

/-- A date or time style is made again exactly if the gap behind it is trimmed off. -/
theorem remakes_dateTimeStyle {o : ParseOptions} (g : Gap) {style : Style DateTimeSkeleton}
    (h : DateTimeStyleWellFormed o style) (location element : Location) (c : Cursor) :
    Remakes (dateTimeStyle o (trimEnd (renderDateTimeStyle style ++ g.chars)) location element c)
      eraseDateTimeStyle style g.Trims := by
  cases style with
  | text name =>
      have htext : IsTextStyle name.toList := h
      rw [dateTimeStyle, renderDateTimeStyle, skeletonText?_of_isTextStyle g htext]
      exact remakes_text eraseDateTimeStyle (fun _ => rfl) g htext
  | skeleton k =>
      have hwf : k.WellFormed o := h
      have hbounds := hwf.trimmed
      simp only [isSpaceBounded, Bool.or_eq_false_iff] at hbounds
      have htext : trimEnd (renderDateTimeStyle (.skeleton k) ++ g.chars) =
          ':' :: ':' :: (k.pattern.toList ++ g.kept.chars) := by
        rw [renderDateTimeStyle, List.cons_append, List.cons_append, trimEnd_colons,
          g.trimEnd_append hbounds.2]
      have hmade := dateTimeStyle_render h location element c
      rw [renderDateTimeStyle, trimEnd_colons, trimEnd_eq_self hbounds.2] at hmade
      rw [htext, ← g.kept_eq_nil_iff]
      constructor
      · intro hnil
        rwa [hnil, List.append_nil]
      · intro again hagain hsame
        cases again with
        | text name => cases hsame
        | skeleton k' =>
            have hhead : (k.pattern.toList ++ g.kept.chars).head?.any isSpace = false := by
              rw [List.head?_append_of_ne_nil _ hwf.nonempty]
              exact hbounds.1
            have hpattern := pattern_of_dateTimeStyle hagain
            simp only [eraseDateTimeStyle, Style.skeleton.injEq, DateTimeSkeleton.mk.injEq] at hsame
            rw [trimStart_eq_self hhead, hsame.1] at hpattern
            simpa using hpattern

section Simple

variable {inner : NestedReader} {o : ParseOptions} {s : Scope} {name : String}
  {location : Location} {head : HeadLayout} {behindComma behindStyle : Gap} {tail : List Char}
  {c : Cursor}

/-- A style or the end of the argument ends a type. -/
theorem head?_layoutStyle (behindComma behindStyle : Gap) (style : Option (List Char))
    (tail : List Char) :
    (layoutStyle behindComma behindStyle style ++ '}' :: tail).head?.any isIdentifierChar =
      false := by
  cases style <;> rfl

/-- A number argument is given back if its style is. -/
theorem readArgument_number_layout {style : Option (Style NumberSkeleton)}
    (h : c.rest = head.text name "number" ++
      (layoutStyle behindComma behindStyle (style.map renderNumberStyle) ++ '}' :: tail))
    (hname : isIdentifier name.toList = true) (hstyle : ∀ k ∈ style, NumberStyleWellFormed o k)
    (hreprintable : ∀ k ∈ style, NumberStyleReprintable k) :
    Recovers (readArgument inner o s c) Element.erase (Element.number name style location).erase
      tail (head.Neat ∧ ∀ text, style = some (.text text) → behindStyle.Trims) := by
  apply Recovers.of_head h hname (by decide : argumentTypes.lookup "number" = some .number)
    (head?_layoutStyle _ _ _ _) rfl
  intro d hd
  cases style with
  | none => simpa [readTyped] using readNumber_none c.position hd head.behindType.space
  | some k =>
      have hk : NumberStyleWellFormed o k := hstyle k rfl
      rw [Option.map_some, layoutStyle, List.cons_append, List.append_assoc] at hd
      have hread : Recovers (readNumber o name c.position d) Element.erase
          (Element.number name (some k) location).erase tail
          (∀ text, k = .text text → behindStyle.Trims) :=
        readNumber_some c.position hd head.behindType.space behindComma.space
          (behindStyle.isStyleText_append hk.isStyleText)
          (remakes_numberStyle behindStyle hk (hreprintable k rfl))
      simpa [readTyped] using hread

/-- A date or time argument is given back if its style is. -/
theorem readArgument_dateTime_layout {kind : DateTimeKind}
    {style : Option (Style DateTimeSkeleton)}
    (h : c.rest = head.text name kind.keyword ++
      (layoutStyle behindComma behindStyle (style.map renderDateTimeStyle) ++ '}' :: tail))
    (hname : isIdentifier name.toList = true)
    (hstyle : ∀ k ∈ style, DateTimeStyleWellFormed o k) :
    Recovers (readArgument inner o s c) Element.erase
      (Element.dateTime kind name style location).erase tail
      (head.Neat ∧ ∀ k, style = some k → behindStyle.Trims) := by
  apply Recovers.of_head h hname (lookup_dateTimeKind kind).1 (head?_layoutStyle _ _ _ _) rfl
  intro d hd
  cases style with
  | none => simpa [readTyped] using readDateTime_none c.position hd head.behindType.space
  | some k =>
      have hk : DateTimeStyleWellFormed o k := hstyle k rfl
      rw [Option.map_some, layoutStyle, List.cons_append, List.append_assoc] at hd
      have hread : Recovers (readDateTime o kind name c.position d) Element.erase
          (Element.dateTime kind name (some k) location).erase tail behindStyle.Trims :=
        readDateTime_some c.position hd head.behindType.space behindComma.space
          (behindStyle.isStyleText_append hk.isStyleText) (remakes_dateTimeStyle behindStyle hk)
      simpa [readTyped] using hread

end Simple

/-! ## Selectors and offsets -/

/-- What a selector is read as, with what a word takes of the gap behind it. -/
theorem exists_readSelector (g : Gap) {plural : Bool} {selector : String} {rest : List Char}
    {c : Cursor} (h : c.rest = selector.toList ++ (g.chars ++ '{' :: rest))
    (hselector : isSelectorText plural selector.toList = true) :
    ∃ word d, readSelector plural c = .ok (some (word, d)) ∧
      (∃ left : Gap, d.rest = left.chars ++ '{' :: rest) ∧
      (word = selector ↔ (isIdentifier selector.toList = true → g.Parts)) := by
  by_cases hword : isIdentifier selector.toList = true
  · obtain ⟨hne, hall, -⟩ := isIdentifier_iff.mp hword
    obtain ⟨d, hread, hd⟩ := g.identifier_of_rest h hall rfl
    have hempty : String.ofList (selector.toList ++ g.joined) ≠ "" := by
      have hselector : selector ≠ "" := by simpa using hne
      simp [hselector]
    refine ⟨String.ofList (selector.toList ++ g.joined), d, ?_, ⟨g.left, hd⟩, ?_⟩
    · simp only [readSelector, hread, if_pos hempty]
    · rw [g.ofList_append_joined, imp_iff_right hword]
  · simp only [isSelectorText, hword, Bool.false_or, Bool.and_eq_true] at hselector
    obtain ⟨rfl, hexact⟩ := hselector
    obtain ⟨numeral, hnumeral, hsafe⟩ := isSafeNumeral_of_isExactSelector hexact
    have hstop : (g.chars ++ '{' :: rest).head?.any Char.isDigit = false := by
      cases hchars : g.chars with
      | nil => rfl
      | cons ch chars =>
          have hspace := List.all_eq_true.mp g.space ch (by simp [hchars])
          simpa using isDigit_of_isPatternSpace hspace
    obtain ⟨d, hread, hd⟩ := readSelector_exact h hnumeral hsafe hstop
    exact ⟨selector, d, hread, ⟨g, hd⟩, by simp [hword]⟩

/-- A selector is not taken for the word in front of an offset, whatever the gap
behind it is, unless it is this word. -/
theorem readOffset_of_selector (g : Gap) {selector : String} {rest : List Char} {c : Cursor}
    (h : c.rest = selector.toList ++ (g.chars ++ '{' :: rest))
    (hselector : isSelectorText true selector.toList = true) (hother : selector ≠ "offset") :
    readOffset true c = .ok (0, c) := by
  have hidentifier : c.identifier.1 ≠ "offset" := by
    by_cases hword : isIdentifier selector.toList = true
    · obtain ⟨-, hall, -⟩ := isIdentifier_iff.mp hword
      obtain ⟨d, hread, -⟩ := g.identifier_of_rest h hall rfl
      intro hoffset
      simp only [hread] at hoffset
      have hlist : selector.toList ++ g.joined = "offset".toList := by
        rw [← hoffset, String.toList_ofList]
      have hparts := g.parts_of_append (by rw [hlist]; decide)
      exact hother (((g.ofList_append_joined selector).mpr hparts).symm.trans hoffset)
    · simp only [isSelectorText, hword, Bool.false_or, Bool.true_and] at hselector
      obtain ⟨numeral, hnumeral, -⟩ := isSafeNumeral_of_isExactSelector hselector
      have hempty : c.identifier.1 = "" := Cursor.identifier_eq_empty (by rw [h, hnumeral]; rfl)
      rw [hempty]
      decide
  simp [readOffset, hidentifier]

end MessagePattern
