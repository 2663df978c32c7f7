/-
# Writing and reading back

A well-formed tree is written, and what was written is read again.  The tree
comes back, up to locations, if and only if it is reprintable.  The induction is
on the tree; its step is that every element is given back whatever stands behind
it, as long as the text of a literal is over there.

Two statements follow.  Reading gives well-formed trees only, so a tree that was
read survives exactly if it is reprintable.  And since a tree that comes back was
read from what was written, the trees that survive are the canonical ones,
wherever they came from.
-/

import MessagePattern.Proofs.NestedRecovery
import MessagePattern.Proofs.WellFormed

namespace MessagePattern

/-! ## Literals -/

/-- A literal is over at its end if it is a tag that closes itself, or else if
what follows is no more text. -/
def Element.IsOver (o : ParseOptions) (s : Scope) (tail : List Char) : Element → Prop
  | .literal text _ =>
    (o.ignoreTag = false ∧ isSelfClosingTag text.toList = true) ∨
      ((isSelfClosingTag text.toList = true → o.ignoreTag = true) ∧ EndsLiteral o s tail)
  | _ => True

theorem readElement_literal (inner : NestedReader) {o : ParseOptions} {s : Scope} {text : String}
    {location : Location} {tail : List Char} {c : Cursor}
    (h : c.rest = renderElement s.plural (.literal text location) ++ tail) (hne : text ≠ "")
    (hover : (Element.literal text location).IsOver o s tail) :
    ElementRecovers (readElement inner o s c) eraseElements (.literal text location) tail True := by
  rcases hover with ⟨htags, hself⟩ | ⟨hraw, hends⟩
  · obtain ⟨name, htext, hname⟩ := isSelfClosingTag_iff.mp hself
    have hrest : c.rest = '<' :: (name ++ '/' :: '>' :: tail) := by
      rw [h, renderElement, renderLiteral, if_pos hself, htext]
      simp
    rw [readElement_of_letter inner o s htags hrest (head?_append_of_isTagName hname _)]
    exact ((readTag_selfClosing inner s h hself).seen rfl).map_some
  · have hsaid := literalText_render hraw hends
    rw [renderElement] at h
    rw [← h] at hsaid
    have hbegins : ¬ EndsLiteral o s c.rest := by
      intro hnone
      rw [literalText_of_endsLiteral hnone] at hsaid
      simp only [Prod.mk.injEq] at hsaid
      exact hne (String.toList_eq_nil_iff.mp hsaid.1.symm)
    rw [readElement_of_text inner o s hbegins]
    refine ⟨fun _ => ⟨_, _, rfl, ?_, ?_⟩, fun _ _ _ _ => trivial⟩
    · simp [hsaid, Element.erase]
    · simp only [hsaid]
      exact Cursor.rest_advance_append h

theorem Element.WellFormed.legible {o : ParseOptions} {level : Nat} {inPlural : Bool}
    {e : Element} (h : e.WellFormed o level inPlural) : e.Legible o := by
  cases e with
  | literal | argument | number | dateTime => exact h
  | selector kind name branches location => exact ⟨h.1, h.2.1, h.2.2.1⟩
  | pound location => trivial
  | tag name children location => exact ⟨h.1, h.2.1⟩

/-- A literal is over at its end if what follows it ends literals, where another
literal may follow only if it is a tag that closes itself. -/
theorem isOver_of_isChain {o : ParseOptions} {s : Scope} {e : Element} {es : List Element}
    {tail : List Char} (happart : (e :: es).IsChain (MayMeet o))
    (hnil : es = [] → EndsLiteral o s tail)
    (hcons : ∀ next others, es = next :: others →
      (∀ said location, next = .literal said location →
        o.ignoreTag = false ∧ isSelfClosingTag said.toList = true) → EndsLiteral o s tail) :
    e.IsOver o s tail := by
  cases e with
  | literal text location =>
      by_cases hself : o.ignoreTag = false ∧ isSelfClosingTag text.toList = true
      · exact .inl hself
      · refine .inr ⟨fun hraw => by simpa [hraw] using hself, ?_⟩
        cases es with
        | nil => exact hnil rfl
        | cons next es =>
            obtain ⟨hmeet, -⟩ := List.isChain_cons_cons.mp happart
            apply hcons next es rfl
            rintro said location' rfl
            obtain ⟨htags, hone⟩ := hmeet
            exact ⟨htags, hone.resolve_left fun hfirst => hself ⟨htags, hfirst⟩⟩
  | _ => trivial

/-- In a well-formed text every literal is over at its end. -/
theorem isOver_of_wellFormed {o : ParseOptions} {level : Nat} {s : Scope} {e : Element}
    {es : List Element} (happart : (e :: es).IsChain (MayMeet o))
    (h : ElementsWellFormed o level s.plural es) {tail : List Char} (htail : Closes o s tail) :
    e.IsOver o s (renderElements s.plural es ++ tail) := by
  apply isOver_of_isChain happart
  · rintro rfl
    exact htail.endsLiteral
  · rintro next others rfl hself
    rw [renderElements, List.append_assoc]
    refine endsLiteral_renderElement h.1.legible ?_ hself _
    rintro location rfl
    exact h.1

/-! ## Texts -/

/-- Every element leaves a trace, so the length of what was written bounds the
number of elements to read. -/
theorem renderElement_ne_nil {o : ParseOptions} {level : Nat} {inPlural : Bool} {e : Element}
    (h : e.WellFormed o level inPlural) : renderElement inPlural e ≠ [] := by
  cases e with
  | literal text location =>
      intro hnil
      have hne : text ≠ "" := h
      rw [renderElement] at hnil
      have hsaid : literalText { ignoreTag := true } ⟨false, inPlural, false⟩ false
          (renderLiteral inPlural text.toList ++ []) = (text.toList, _) :=
        literalText_render (fun _ => rfl) trivial
      rw [hnil] at hsaid
      exact hne (String.toList_eq_nil_iff.mp (Prod.mk.inj hsaid).1.symm)
  | _ => simp [renderElement, renderSimple]

theorem length_le_renderElements {o : ParseOptions} {level : Nat} {inPlural : Bool}
    {es : List Element} (h : ElementsWellFormed o level inPlural es) :
    es.length ≤ (renderElements inPlural es).length := by
  induction es with
  | nil => exact Nat.zero_le _
  | cons e es ih =>
      have hpos := List.length_pos_iff.mpr (renderElement_ne_nil h.1)
      have hle := ih h.2
      rw [renderElements, List.length_append, List.length_cons]
      omega

/-- An element that is given back, in front of elements that are. -/
theorem ElementRecovers.cons {inner : NestedReader} {o : ParseOptions} {s : Scope} {e : Element}
    {es : List Element} {bound : Nat} {mid tail : List Char} {fine fine' : Prop} {c : Cursor}
    (hfirst : ElementRecovers (readElement inner o s c) eraseElements e mid fine)
    (hrest : ∀ d : Cursor, d.rest = mid →
      Recovers (readElements inner o s bound d) eraseElements (eraseElements es) tail fine') :
    Recovers (readElements inner o s (bound + 1) c) eraseElements (eraseElements (e :: es)) tail
      (fine ∧ fine') where
  complete := by
    rintro ⟨hfine, hfine'⟩
    obtain ⟨e', d, hread, he, hd⟩ := hfirst.complete hfine
    rw [Element.seen_eraseElements, Element.seen_eraseElements] at he
    obtain ⟨es', d', hreads, hes, hd'⟩ := (hrest d hd).complete hfine'
    refine ⟨e' :: es', d', ?_, by simp [eraseElements, he, hes], hd'⟩
    simp [readElements, bind, Except.bind, hread, hreads]
  faithful := by
    intro all d' hok hsame
    obtain ⟨found, hread, hok⟩ := bind_eq_ok hok
    cases found with
    | none =>
        cases hok
        cases hsame
    | some pair =>
        obtain ⟨e', d⟩ := pair
        obtain ⟨⟨es', last⟩, hreads, hok⟩ := bind_eq_ok hok
        cases hok
        simp only [eraseElements, List.cons.injEq] at hsame
        have hfine := hfirst.faithful e' d hread (by simpa using hsame.1)
        obtain ⟨e₀, d₀, hread₀, -, hd⟩ := hfirst.complete hfine
        cases hread.symm.trans hread₀
        exact ⟨hfine, (hrest d hd).faithful es' _ hreads hsame.2⟩

/-- The text of a scope is given back if its elements are, one after the other. -/
theorem recoversText_readMessage {o : ParseOptions} {level budget : Nat} {s : Scope}
    {es : List Element} {tail : List Char} (hwf : ElementsWellFormed o level s.plural es)
    (h : ∀ (bound : Nat) (c : Cursor), es.length ≤ bound →
      c.rest = renderElements s.plural es ++ tail →
      Recovers (readElements (readMessage o budget) o s bound c) eraseElements (eraseElements es)
        tail (Reprintable es)) :
    RecoversText (readMessage o (budget + 1)) eraseElements (fun _ => Reprintable) s es tail := by
  intro c hc
  have hle := length_le_renderElements hwf
  exact h c.rest.length c (by rw [hc, List.length_append]; omega) hc

theorem keeps_reprintable_iff {inPlural : Bool} {e : Element} :
    e.Keeps (fun _ => Reprintable) inPlural ↔ e.Reprintable := by
  cases e with
  | selector kind name branches location =>
      rw [Element.Keeps, Element.Reprintable, branchesReprintable_iff]
  | _ => rfl

/-- An element is given back, as long as a literal is over at its end. -/
theorem readElement_render {inner : NestedReader} {o : ParseOptions} {level : Nat} {s : Scope}
    {e : Element} {tail : List Char} {c : Cursor} (hwf : e.WellFormed o level s.plural)
    (h : c.rest = renderElement s.plural e ++ tail) (hover : e.IsOver o s tail)
    (hinner : e.RecoversTexts inner eraseElements (fun _ => Reprintable) s) :
    ElementRecovers (readElement inner o s c) eraseElements e tail e.Reprintable := by
  by_cases hliteral : ∃ text location, e = .literal text location
  · obtain ⟨text, location, rfl⟩ := hliteral
    exact readElement_literal inner h hwf hover
  · rw [← keeps_reprintable_iff]
    apply readElement_recovers h (fun text location heq => hliteral ⟨text, location, heq⟩)
      hwf.legible _ hinner
    rintro location rfl
    exact hwf

mutual

theorem recoversTexts_render {o : ParseOptions} {level : Nat} {s : Scope} :
    ∀ {e : Element}, e.WellFormed o level s.plural →
      e.RecoversTexts (readMessage o (o.maxNestingDepth - level)) eraseElements
        (fun _ => Reprintable) s
  | .literal _ _, _ | .argument _ _, _ | .number _ _ _, _ | .dateTime _ _ _ _, _
  | .pound _, _ => trivial
  | .selector _ _ _ _, hwf => readBranches_render hwf.2.2.2
  | .tag _ children _, hwf => by
      obtain ⟨htags, hname, hlevel, happart, hchildren⟩ := hwf
      intro rest
      rw [show o.maxNestingDepth - level = o.maxNestingDepth - (level + 1) + 1 by omega]
      exact recoversText_readMessage hchildren fun bound c hbound hc =>
        readElements_render happart hchildren (.tag rfl htags rest) hbound hc

theorem readElements_render {o : ParseOptions} {level : Nat} {s : Scope} :
    ∀ {es : List Element} {tail : List Char} {bound : Nat} {c : Cursor},
      es.IsChain (MayMeet o) → ElementsWellFormed o level s.plural es → Closes o s tail →
      es.length ≤ bound → c.rest = renderElements s.plural es ++ tail →
      Recovers (readElements (readMessage o (o.maxNestingDepth - level)) o s bound c)
        eraseElements (eraseElements es) tail (Reprintable es)
  | [], tail, bound, c, _, _, htail, _, h => by
      have hrest : c.rest = tail := h
      exact ⟨fun _ => ⟨[], c, htail.readElements bound hrest, rfl, hrest⟩,
        fun _ _ _ _ => trivial⟩
  | e :: es, tail, bound + 1, c, happart, hwf, htail, hbound, h => by
      rw [renderElements, List.append_assoc] at h
      have hover := isOver_of_wellFormed happart hwf.2 htail
      exact (readElement_render hwf.1 h hover (recoversTexts_render hwf.1)).cons fun d hd =>
        readElements_render happart.tail hwf.2 htail (by simpa using hbound) hd

theorem readBranches_render {o : ParseOptions} {level : Nat} {s : Scope} {plural : Bool} :
    ∀ {branches : List (Branch Element)}, BranchesWellFormed o (level + 1) plural branches →
      ∀ b ∈ branches, ∀ rest, RecoversText (readMessage o (o.maxNestingDepth - level))
        eraseElements (fun _ => Reprintable) (s.branch plural) b.value ('}' :: rest)
  | ⟨_, value, _⟩ :: branches, hwf, b, hb, rest => by
      obtain ⟨⟨hlevel, happart, hvalue⟩, hbranches⟩ := hwf
      rcases List.mem_cons.mp hb with rfl | hb
      · rw [show o.maxNestingDepth - level = o.maxNestingDepth - (level + 1) + 1 by omega]
        exact recoversText_readMessage hvalue fun bound c hbound hc =>
          readElements_render happart hvalue (.branch rfl rest) hbound hc
      · exact readBranches_render hbranches b hb rest

end

/-! ## Whole messages -/

/-- A well-formed tree comes back from what is written if it is reprintable, and
only then. -/
theorem WellFormedAt.parse_print {o : ParseOptions} {elements : List Element}
    (h : WellFormedAt o 0 false elements) :
    (∃ again, parse (print elements) o = .ok again ∧
        eraseElements again = eraseElements elements) ↔ Reprintable elements := by
  have htext : RecoversText (readMessage o (o.maxNestingDepth - 0 + 1)) eraseElements
      (fun _ => Reprintable) .top elements [] :=
    recoversText_readMessage h.elements fun bound c hbound hc =>
      readElements_render h.apart h.elements .message hbound hc
  have hread : Recovers (readAll o (print elements).toList) eraseElements (eraseElements elements)
      [] (Reprintable elements) := by
    apply htext (.start (print elements).toList)
    simp [Cursor.start, print, Scope.top]
  constructor
  · rintro ⟨again, hparse, hsame⟩
    obtain ⟨d, hok⟩ := readAll_of_parse hparse
    exact hread.faithful again d hok hsame
  · intro hreprintable
    obtain ⟨again, d, hok, hsame, -⟩ := hread.complete hreprintable
    exact ⟨again, by rw [parse, hok], hsame⟩

/-- A tree that was read comes back, with the same options, from what is written
if it is reprintable, and only then. -/
theorem parse_print_iff_reprintable {message : String} {o : ParseOptions}
    {elements : List Element} (h : parse message o = .ok elements) :
    (∃ again, parse (print elements) o = .ok again ∧
        eraseElements again = eraseElements elements) ↔ Reprintable elements :=
  (wellFormedAt_of_parse h).parse_print

/-- A plural with an offset that is written. -/
theorem parse_print_offset_one :
    ∃ again,
      parse (print [.selector (.plural .cardinal 1) "n"
        [⟨"one", [.pound (.inLine 25 26)], .inLine 24 27⟩] (.inLine 0 28)]) {} = .ok again ∧
      eraseElements again = [.selector (.plural .cardinal 1) "n"
        [⟨"one", [.pound .blank], .blank⟩] .blank] := by
  have hparse : parse "{n, plural, offset:1 one{#}}" {} =
      .ok [.selector (.plural .cardinal 1) "n"
        [⟨"one", [.pound (.inLine 25 26)], .inLine 24 27⟩] (.inLine 0 28)] := rfl
  apply (parse_print_iff_reprintable hparse).mpr
  simp [Reprintable, BranchesReprintable, Element.Reprintable, SelectorKind.hidesOffset]

/-- An offset of zero is not written, and then the selector behind it is read as
the word in front of an offset. -/
theorem parse_print_offset_zero :
    parse "{n, plural, offset:0 offset{x}}" {} =
        .ok [.selector (.plural .cardinal 0) "n"
          [⟨"offset", [.literal "x" (.inLine 28 29)], .inLine 27 30⟩] (.inLine 0 31)] ∧
      ∀ again,
        parse (print [.selector (.plural .cardinal 0) "n"
          [⟨"offset", [.literal "x" (.inLine 28 29)], .inLine 27 30⟩] (.inLine 0 31)]) {} ≠
          .ok again := by
  have hprint : print [.selector (.plural .cardinal 0) "n"
      [⟨"offset", [.literal "x" (.inLine 28 29)], .inLine 27 30⟩] (.inLine 0 31)] =
        "{n, plural, offset{x}}" := by
    decide
  have hparse : parse "{n, plural, offset{x}}" {} =
      .error ⟨.expectPluralArgumentOffsetValue, "{n, plural, offset{x}}", .inLine 18 18, none⟩ :=
    rfl
  refine ⟨rfl, fun again hagain => ?_⟩
  rw [hprint, hparse] at hagain
  cases hagain

/-- The trees that come back from what is written are the canonical ones, whether
they were read or not. -/
theorem canonical_iff_parse_print (o : ParseOptions) (elements : List Element) :
    Canonical o 0 false elements ↔
      ∃ again, parse (print elements) o = .ok again ∧
        eraseElements again = eraseElements elements := by
  constructor
  · rintro ⟨hwf, hreprintable⟩
    exact hwf.parse_print.mpr hreprintable
  · rintro ⟨again, hparse, hsame⟩
    have hwf : WellFormedAt o 0 false elements :=
      (wellFormedAt_of_parse hparse).of_erase_eq hsame
    exact ⟨hwf, hwf.parse_print.mp ⟨again, hparse, hsame⟩⟩

end MessagePattern
