/-
# Elements are read by themselves

Each element of a message is what the text at its location reads as, when that
text is a message of its own: the same element, with its positions counted from
where the text began.  So how an element is read depends on nothing in front of
it and, though reading looks ahead, on nothing behind it.

The proof takes the derivation of the element and changes it, rule by rule, into
one on the shadows of its cursors.  Only the rule for literals has an end that is
not a scalar of its own; there the text behind the location decides where the
element ends, and the end of a message does just as well.
-/

import MessagePattern.Proofs.Shadow
import MessagePattern.Proofs.Tiling

namespace MessagePattern

open Cursor

section Rules

variable {origin : Position} {tail : List Char} {c c' d : Cursor}

/-! ## Names, types and styles -/

theorem NameRead.shadow {name : String} (h : NameRead c name d) (hc : Shadow origin tail c c')
    (hin : tail.length ≤ d.rest.length) :
    ∃ d', NameRead c' name d' ∧ Shadow origin tail d d' := by
  obtain ⟨⟨text, hbrace⟩, hne, hname, rfl⟩ := h
  have hword := hin.trans (reaches_skipSpace _).length_le
  have hspace := hword.trans (reaches_identifier _).length_le
  have hlt := Shadow.lt_of_bump hbrace (hspace.trans (reaches_skipSpace _).length_le)
  have hshadow := ((hc.bump hlt).skipSpace hspace).identifier hword
  exact ⟨_, ⟨hc.rest_cons hbrace hlt, hne, hshadow.1.trans hname, rfl⟩, hshadow.2.skipSpace hin⟩

theorem TypeRead.shadow {name : String} {type : ArgumentType} (h : TypeRead c name type d)
    (hc : Shadow origin tail c c') (hin : tail.length ≤ d.rest.length) :
    ∃ d', TypeRead c' name type d' ∧ Shadow origin tail d d' := by
  obtain ⟨named, hname, ⟨text, hcomma⟩, htype, rfl⟩ := h
  have hspace := hin.trans (reaches_identifier _).length_le
  have hlt := Shadow.lt_of_bump hcomma (hspace.trans (reaches_skipSpace _).length_le)
  obtain ⟨named', hname', hnamed⟩ := hname.shadow hc (Nat.le_of_lt hlt)
  have hshadow := ((hnamed.bump hlt).skipSpace hspace).identifier hin
  exact ⟨_, ⟨named', hname', hnamed.rest_cons hcomma hlt, hshadow.1 ▸ htype, rfl⟩, hshadow.2⟩

/-- The text of a style with its location moved. -/
def relocateStyleText (f : Position → Position) (text : List Char × Location) :
    List Char × Location :=
  (text.1, text.2.map f)

theorem shadow_readOptionalStyle {styled : Cursor} {text : Option (List Char × Location)}
    {opening : Position} (h : readOptionalStyle c = .ok (text, styled))
    (hclosed : styled.closeBrace opening = .ok d) (hc : Shadow origin tail c c')
    (hin : tail.length ≤ d.rest.length) :
    ∃ styled', readOptionalStyle c' =
        .ok (text.map (relocateStyleText origin.rebase), styled') ∧
      Shadow origin tail styled styled' := by
  have hclose : styled.rest = '}' :: d.rest := (Passes.of_closeBrace hclosed).rest
  have hstyled : tail.length < styled.rest.length := by
    rw [hclose]
    exact Nat.lt_succ_of_le hin
  rcases readOptionalStyle_cases h with
    ⟨rfl, hcomma, rfl⟩ | ⟨style, location, comma, rfl, hcomma, hstyle⟩
  · have hshadow := hc.skipSpace (Nat.le_of_lt hstyled)
    refine ⟨c'.skipSpace, ?_, hshadow⟩
    simp [readOptionalStyle, hshadow.skip?_eq_none hcomma]
  · have hspace := (Nat.le_of_lt hstyled).trans (readStyle_located hstyle).1.length_le
    have hcommaIn := hspace.trans (reaches_skipSpace comma).length_le
    have hskip := hc.skipSpace (hcommaIn.trans (Passes.of_skip? hcomma).reaches.length_le)
    obtain ⟨comma', hcomma', hshadow⟩ := hskip.skip? hcomma hcommaIn
    obtain ⟨styled', hstyle', hshadow'⟩ :=
      (hshadow.skipSpace hspace).readStyle hstyle hclose hstyled
    refine ⟨styled', ?_, hshadow'⟩
    simp [readOptionalStyle, hcomma', hstyle', bind, Except.bind, relocateStyleText]

theorem numberStyle_relocate {o : ParseOptions} {text : List Char} {location : Location}
    {style : Style NumberSkeleton} (h : numberStyle o text location c = .ok style)
    (f : Position → Position) :
    numberStyle o text (location.map f) c' = .ok (relocateNumberStyle f style) := by
  unfold numberStyle at h ⊢
  repeat' split at h
  all_goals cases h
  all_goals simp_all [relocateNumberStyle]

theorem dateTimeStyle_relocate {o : ParseOptions} {text : List Char}
    {location element element' : Location} {style : Style DateTimeSkeleton}
    (h : dateTimeStyle o text location element c = .ok style) (f : Position → Position) :
    dateTimeStyle o text (location.map f) element' c' = .ok (relocateDateTimeStyle f style) := by
  unfold dateTimeStyle at h ⊢
  repeat' split at h
  all_goals cases h
  all_goals simp_all [relocateDateTimeStyle]

theorem StyleMade.relocate {σ : Type} {make make' : List Char → Location → Except Failure (Style σ)}
    {text : Option (List Char × Location)} {style : Option (Style σ)} {f : Position → Position}
    {g : Style σ → Style σ} (h : StyleMade make text style)
    (hmake : ∀ text location made, make text location = .ok made →
      make' text (location.map f) = .ok (g made)) :
    StyleMade make' (text.map (relocateStyleText f)) (style.map g) := by
  match text, h with
  | none, h =>
      have hnone : style = none := h
      exact congrArg (Option.map g) hnone
  | some (text, location), ⟨made, hmade, hstyle⟩ =>
      exact ⟨g made, hmake text location made hmade, congrArg (Option.map g) hstyle⟩

/-! ## Tags and branches -/

theorem shadow_readClosingTag {name : String} {opening : Position}
    (h : readClosingTag name opening c = .ok d) (hc : Shadow origin tail c c')
    (hin : tail.length ≤ d.rest.length) (opening' : Position) :
    ∃ d', readClosingTag name opening' c' = .ok d' ∧ Shadow origin tail d d' := by
  obtain ⟨slash, hslash, rest⟩ := bind_eq_ok h
  simp only at rest
  split at rest
  · cases rest
  next hletter =>
  split at rest
  · cases rest
  next hname =>
  have hspace := hin.trans (Reaches.of_expect rest).length_le
  have hnamed := hspace.trans (reaches_skipSpace _).length_le
  obtain ⟨letter, text, htext⟩ : ∃ letter text, slash.rest = letter :: text := by
    cases hrest : slash.rest with
    | nil => simp [hrest] at hletter
    | cons letter text => exact ⟨letter, text, rfl⟩
  have hlt := Shadow.lt_of_tagName (by simp [htext]) hnamed
  obtain ⟨slash', hslash', hshadow⟩ := hc.expect hslash (Nat.le_of_lt hlt) (c'.since opening')
  obtain ⟨text', htext'⟩ := hshadow.rest_cons htext hlt
  obtain ⟨hsame, hshadow⟩ := hshadow.tagName hlt hnamed
  obtain ⟨d', hd', hshadow⟩ := (hshadow.skipSpace hspace).expect rest hin
    (slash'.tagName.2.skipSpace.since c'.position)
  refine ⟨d', ?_, hshadow⟩
  have hletter' : slash'.rest.head?.any isTagLetter = true := by
    rw [htext] at hletter
    simpa [htext'] using hletter
  rw [ne_eq, Classical.not_not] at hname
  simp [readClosingTag, hslash', bind, Except.bind, hletter', hsame, hname, hd']

theorem shadow_tagName (hbegins : ∃ letter text, c.rest = '<' :: letter :: text ∧
      isTagLetter letter = true) (hc : Shadow origin tail c c')
    (hin : tail.length ≤ c.bump.tagName.2.skipSpace.rest.length) :
    (∃ letter text, c'.rest = '<' :: letter :: text ∧ isTagLetter letter = true) ∧
      c'.bump.tagName.1 = c.bump.tagName.1 ∧
      Shadow origin tail c.bump.tagName.2.skipSpace c'.bump.tagName.2.skipSpace := by
  obtain ⟨letter, text, hrest, hletter⟩ := hbegins
  have hbump := rest_bump_cons hrest
  have hnamed := hin.trans (reaches_skipSpace _).length_le
  have hlt := Shadow.lt_of_tagName (by simp [hbump]) hnamed
  have hlt' := Shadow.lt_of_bump hrest (Nat.le_of_lt hlt)
  have hshadow := hc.bump hlt'
  obtain ⟨after, hafter⟩ := hc.rest_cons hrest hlt'
  obtain ⟨text', htext'⟩ := hshadow.rest_cons hbump hlt
  rw [rest_bump_cons hafter] at htext'
  obtain ⟨hname, hshadow⟩ := hshadow.tagName hlt hnamed
  exact ⟨⟨letter, text', htext' ▸ hafter, hletter⟩, hname, hshadow.skipSpace hin⟩

/-- What a reader reads of nested text within the part, it reads on the shadow. -/
def IsLocal (origin : Position) (tail : List Char) (inner : NestedReader) : Prop :=
  ∀ s c c' es d, inner s c = .ok (es, d) → Shadow origin tail c c' →
    tail.length ≤ d.rest.length →
    ∃ d', inner s c' = .ok (relocateElements origin.rebase es, d') ∧ Shadow origin tail d d'

variable {inner : NestedReader} (hinner : IsLocal origin tail inner)
  (hreach : ∀ {s c es d}, inner.Gives s c es d → c.Reaches d)

include hinner hreach

theorem BranchesRead.shadow {s : Scope} {plural : Bool} {seen : List String}
    {branches : List (Branch Element)} (h : BranchesRead inner.Gives s plural seen c branches d)
    (hc : Shadow origin tail c c') (hin : tail.length ≤ d.rest.length) :
    ∃ d', BranchesRead inner.Gives s plural seen c' (relocateBranches origin.rebase branches) d' ∧
      Shadow origin tail d d' := by
  induction h generalizing c' with
  | nil seen c => exact ⟨c', .nil seen c', hc⟩
  | @cons seen c opening body stop after d selector value branches selected fresh opened inner'
      closed rest ih =>
      have hspaceIn := hin.trans (rest.reaches hreach).length_le
      have hafterIn := hspaceIn.trans (reaches_skipSpace after).length_le
      have hstopIn := hafterIn.trans (Reaches.of_closeBrace closed).length_le
      have hbodyIn := hstopIn.trans (hreach inner').length_le
      have hopenIn := hbodyIn.trans (Reaches.of_expect opened).length_le
      obtain ⟨opening', selected', hopening⟩ :=
        hc.readSelector selected (hopenIn.trans (reaches_skipSpace opening).length_le)
      have hopen := hopening.skipSpace hopenIn
      obtain ⟨body', opened', hbody⟩ := hopen.expect opened hbodyIn opening'.skipSpace.here
      obtain ⟨stop', hvalue, hstop⟩ := hinner _ _ _ _ _ inner' hbody hstopIn
      obtain ⟨after', closed', hafter⟩ := hstop.closeBrace closed hafterIn
        opening'.skipSpace.position
      obtain ⟨d', rest', hd⟩ := ih (hafter.skipSpace hspaceIn) hin
      refine ⟨d', ?_, hd⟩
      rw [relocateBranches, hopen.map_since hafter]
      exact .cons selected' fresh opened' hvalue closed' rest'

/-! ## Elements -/

theorem ElementRead.shadow {o : ParseOptions} {s : Scope} {e : Element}
    (h : ElementRead inner.Gives o s c e d) (hc : Shadow origin tail c c')
    (hin : tail.length ≤ d.rest.length) :
    ∃ d', ElementRead inner.Gives o s c' (e.relocate origin.rebase) d' ∧
      Shadow origin tail d d' := by
  cases h with
  | literal begins =>
      have hle := literalText_le_length o s false c.rest
      have hn : (literalText o s false c.rest).2 ≤ c'.rest.length := by
        have hlength := congrArg List.length hc.rest
        simp only [readLiteral, rest_advance, List.length_drop] at hin
        rw [List.length_append] at hlength
        omega
      have hsame : literalText o s false c'.rest = literalText o s false c.rest := by
        rw [hc.rest] at hn ⊢
        exact literalText_of_append hc.apart hn
      have hd := hc.advance hn
      refine ⟨(readLiteral o s c').2, ?_, by simpa only [readLiteral, hsame] using hd⟩
      have hliteral : (readLiteral o s c').1 =
          (readLiteral o s c).1.relocate origin.rebase := by
        simp only [readLiteral, hsame, Element.relocate, hc.map_since hd]
      rw [← hliteral]
      apply ElementRead.literal
      -- If the shadow found nothing to say, then neither did the cursor.
      intro hends
      have hsaid := literalText_ne_nil begins
      rw [← hsame, literalText_of_endsLiteral hends] at hsaid
      exact hsaid rfl
  | @argument name named hname closed =>
      obtain ⟨text, hclosed⟩ := closed
      have hlt := Shadow.lt_of_bump hclosed hin
      obtain ⟨named', hname', hnamed⟩ := hname.shadow hc (Nat.le_of_lt hlt)
      have hd := hnamed.bump hlt
      refine ⟨named'.bump, ?_, hd⟩
      rw [Element.relocate, hc.map_since hd]
      exact .argument hname' (hnamed.rest_cons hclosed hlt)
  | @number name typed styled d text style head read closed made =>
      have hstyledIn := hin.trans (Reaches.of_closeBrace closed).length_le
      have htypedIn := hstyledIn.trans (reaches_of_readOptionalStyle read).length_le
      obtain ⟨typed', head', htyped⟩ := head.shadow hc htypedIn
      obtain ⟨styled', read', hstyled⟩ := shadow_readOptionalStyle read closed htyped hin
      obtain ⟨d', closed', hd⟩ := hstyled.closeBrace closed hin c'.position
      refine ⟨d', ?_, hd⟩
      rw [Element.relocate, hc.map_since hd]
      exact .number head' read' closed'
        (made.relocate fun _ _ _ hmade => numberStyle_relocate hmade _)
  | @dateTime kind name typed styled d text style head read closed made =>
      have hstyledIn := hin.trans (Reaches.of_closeBrace closed).length_le
      have htypedIn := hstyledIn.trans (reaches_of_readOptionalStyle read).length_le
      obtain ⟨typed', head', htyped⟩ := head.shadow hc htypedIn
      obtain ⟨styled', read', hstyled⟩ := shadow_readOptionalStyle read closed htyped hin
      obtain ⟨d', closed', hd⟩ := hstyled.closeBrace closed hin c'.position
      refine ⟨d', ?_, hd⟩
      rw [Element.relocate, hc.map_since hd]
      exact .dateTime head' read' closed'
        (made.relocate fun _ _ _ hmade => dateTimeStyle_relocate hmade _)
  | @selector plural name offset typed comma first last d branches head separated counted read
      nonempty other closed =>
      have hlastIn := hin.trans (Reaches.of_closeBrace closed).length_le
      have hfirstIn := hlastIn.trans (read.reaches hreach).length_le
      have hspaceIn := hfirstIn.trans (reaches_of_readOffset counted).length_le
      have hcommaIn := hspaceIn.trans (reaches_skipSpace comma).length_le
      have hskipIn := hcommaIn.trans (Reaches.of_expect separated).length_le
      obtain ⟨typed', head', htyped⟩ :=
        head.shadow hc (hskipIn.trans (reaches_skipSpace typed).length_le)
      obtain ⟨comma', separated', hcomma⟩ :=
        (htyped.skipSpace hskipIn).expect separated hcommaIn typed'.here
      have hwordIn : tail.length ≤ comma.skipSpace.identifier.2.rest.length := by
        rcases readOffset_word counted with rfl | hword
        · exact hlastIn.trans (read.reaches_word hreach nonempty).length_le
        · exact hfirstIn.trans hword.length_le
      obtain ⟨first', counted', hfirst⟩ :=
        (hcomma.skipSpace hspaceIn).readOffset hwordIn counted hfirstIn
      obtain ⟨last', read', hlast⟩ := read.shadow hinner hreach hfirst hlastIn
      obtain ⟨d', closed', hd⟩ := hlast.closeBrace closed hin c'.position
      refine ⟨d', ?_, hd⟩
      rw [Element.relocate, hc.map_since hd]
      refine .selector head' separated' counted' read' ?_ ?_ closed'
      · intro hnil
        have hselectors := map_selector_relocateBranches origin.rebase branches
        rw [hnil] at hselectors
        exact nonempty (List.map_eq_nil_iff.mp hselectors.symm)
      · rw [map_selector_relocateBranches]
        exact other
  | pound plural sign =>
      obtain ⟨text, hsign⟩ := sign
      have hlt := Shadow.lt_of_bump hsign hin
      have hd := hc.bump hlt
      refine ⟨c'.bump, ?_, hd⟩
      rw [Element.relocate, hc.map_since hd]
      exact .pound plural (hc.rest_cons hsign hlt)
  | selfClosing tags begins closed =>
      obtain ⟨begins', hname, hshadow⟩ :=
        shadow_tagName begins hc (hin.trans (Passes.of_skip? closed).reaches.length_le)
      obtain ⟨d', closed', hd⟩ := hshadow.skip? closed hin
      refine ⟨d', ?_, hd⟩
      rw [Element.relocate, hc.map_since hd, ← hname]
      exact .selfClosing tags begins' closed'
  | @tag body stop d children tags begins opened inner' closed =>
      have hstopIn := hin.trans (reaches_of_readClosingTag closed).length_le
      have hbodyIn := hstopIn.trans (hreach inner').length_le
      obtain ⟨begins', hname, hshadow⟩ :=
        shadow_tagName begins hc (hbodyIn.trans (Reaches.of_expect opened).length_le)
      obtain ⟨body', opened', hbody⟩ := hshadow.expect opened hbodyIn
        (c'.bump.tagName.2.skipSpace.since c'.position)
      obtain ⟨stop', hchildren, hstop⟩ := hinner _ _ _ _ _ inner' hbody hstopIn
      obtain ⟨d', closed', hd⟩ := shadow_readClosingTag closed hstop hin c'.position
      refine ⟨d', ?_, hd⟩
      rw [Element.relocate, hc.map_since hd, ← hname]
      exact .tag tags begins' opened' hchildren (hname ▸ closed')

theorem ElementsRead.shadow {o : ParseOptions} {s : Scope} {es : List Element}
    (h : ElementsRead inner.Gives o s c es d) (hc : Shadow origin tail c c')
    (hin : tail.length ≤ d.rest.length) :
    ∃ d', ElementsRead inner.Gives o s c' (relocateElements origin.rebase es) d' ∧
      Shadow origin tail d d' := by
  induction h generalizing c' with
  | nil c => exact ⟨c', .nil c', hc⟩
  | cons first rest ih =>
      obtain ⟨mid', first', hmid⟩ :=
        first.shadow hinner hreach hc (hin.trans (rest.reaches hreach).length_le)
      obtain ⟨d', rest', hd⟩ := ih hmid hin
      exact ⟨d', .cons first' rest', hd⟩

end Rules

/-- Where text is over, it is over for the shadow. -/
theorem Closes.shadow {o : ParseOptions} {s : Scope} {origin : Position} {tail : List Char}
    {c c' : Cursor} (h : Closes o s c.rest) (hc : Shadow origin tail c c') :
    Closes o s c'.rest := by
  cases hfirst : c'.rest with
  | nil => exact .message
  | cons ch text =>
      generalize hwhole : c.rest = whole at h
      rw [hc.rest, hfirst, List.cons_append] at hwhole
      cases h with
      | message => cases hwhole
      | branch nested after =>
          rw [(List.cons.inj hwhole).1]
          exact .branch nested text
      | tag inTag tags after =>
          obtain ⟨rfl, hafter⟩ := List.cons.inj hwhole
          cases text with
          | nil =>
              -- The slash would be the first scalar of the tail.
              have happart := hc.apart (by rw [hfirst]; rfl)
              rw [List.nil_append] at hafter
              rw [hafter] at happart
              cases happart
          | cons next text =>
              rw [(List.cons.inj hafter).1]
              exact .tag inTag tags text

/-- Reading nested text is local at every depth. -/
theorem isLocal_readMessage (o : ParseOptions) (origin : Position) (tail : List Char)
    (budget : Nat) : IsLocal origin tail (readMessage o budget) := by
  induction budget with
  | zero =>
      intro s c c' es d h
      cases h
  | succ budget ih =>
      intro s c c' es d h hc hin
      obtain ⟨hread, hcloses⟩ := readMessage_succ_iff.mp h
      obtain ⟨d', hread', hd⟩ := hread.shadow ih reaches_of_readMessage hc hin
      exact ⟨d', readMessage_succ_iff.mpr ⟨hread', hcloses.shadow hd⟩, hd⟩

/-! ## Whole messages -/

theorem ElementsRead.of_mem {R : NestedRelation} (hR : ∀ {s c es d}, R s c es d → c.Reaches d)
    {o : ParseOptions} {s : Scope} {c d : Cursor} {es : List Element}
    (h : ElementsRead R o s c es d) {e : Element} (he : e ∈ es) :
    ∃ first last, c.Reaches first ∧ ElementRead R o s first e last := by
  induction h with
  | nil c => cases he
  | @cons c d f e' es first rest ih =>
      cases he with
      | head => exact ⟨c, d, .refl c, first⟩
      | tail _ he =>
          obtain ⟨first', last', hreaches, hread⟩ := ih he
          exact ⟨first', last', (first.reaches hR).trans hreaches, hread⟩

/-- No element parts an angle bracket from what would make it a tag. -/
theorem ElementRead.apart {R : NestedRelation} (hR : ∀ {s c es d}, R s c es d → c.Reaches d)
    {o : ParseOptions} {s : Scope} {c d : Cursor} {e : Element} (h : ElementRead R o s c e d)
    {text : List Char} (htext : c.Passes text d) (hlast : text.getLast? = some '<') :
    d.rest.head?.any isTagStart = false := by
  -- All elements but literals end with a scalar of their own.
  have hends {mid : Cursor} (before : List Char) (ch : Char) (hne : ch ≠ '<')
      (hmid : c.Reaches mid) (hpasses : mid.Passes (before ++ [ch]) d) :
      d.rest.head?.any isTagStart = false := by
    obtain ⟨first, hfirst⟩ := hmid.passes
    have hboth := (hfirst.trans hpasses).rest
    rw [htext.rest] at hboth
    have hsame := List.append_cancel_right hboth
    rw [hsame, ← List.append_assoc, List.getLast?_concat] at hlast
    exact absurd (Option.some.inj hlast) hne
  cases h with
  | literal begins =>
      have hover := endsLiteral_drop_literalText o s false c.rest
      rw [← rest_advance] at hover
      exact hover.head.2
  | argument named closed =>
      obtain ⟨text, hclosed⟩ := closed
      exact hends [] '}' (by decide) ((reaches_bump c).trans named.reaches)
        (passes_bump hclosed)
  | number head read closed made | dateTime head read closed made =>
      refine hends [] '}' (by decide) ?_ (.of_closeBrace closed)
      exact (reaches_bump c).trans (head.reaches.trans (reaches_of_readOptionalStyle read))
  | selector head separated counted read nonempty other closed =>
      refine hends [] '}' (by decide) ?_ (.of_closeBrace closed)
      exact (reaches_bump c).trans (head.reaches.trans
        ((reaches_of_separated separated counted).trans (read.reaches hR)))
  | pound plural sign =>
      obtain ⟨text, hsign⟩ := sign
      exact hends [] '#' (by decide) (.refl c) (passes_bump hsign)
  | selfClosing tags begins closed =>
      refine hends ['/'] '>' (by decide) ?_ (.of_skip? closed)
      exact (reaches_bump c).trans ((reaches_tagName _).trans (reaches_skipSpace _))
  | tag tags begins opened inner closed =>
      obtain ⟨space, -, hclosing⟩ := passes_of_readClosingTag closed
      refine hends ('<' :: '/' :: (c.bump.tagName.1.toList ++ space)) '>' (by decide) ?_
        (by simpa using hclosing)
      exact (reaches_bump c).trans ((reaches_of_opened opened).trans (hR inner))

/-- The text of each element of a message is a message with this one element, its
positions counted from where the text began. -/
theorem parse_slice {message : String} {o : ParseOptions} {elements : List Element}
    (h : parse message o = .ok elements) {e : Element} (he : e ∈ elements) :
    parse (e.location.slice message) o = .ok [e.relocate e.location.start.rebase] := by
  obtain ⟨d, hread⟩ := readAll_of_parse h
  obtain ⟨first, last, hfirst, helement⟩ :=
    (readMessage_succ_iff.mp hread).1.of_mem reaches_of_readMessage he
  obtain ⟨text, htext⟩ := (helement.reaches reaches_of_readMessage).passes
  have hslice : e.location.slice message = String.ofList text := by
    apply Spans.slice_eq
    rw [helement.location]
    exact htext.spans (hfirst.isIn (isIn_start message.toList))
  have hshadow : Shadow first.position last.rest first (.start text) :=
    ⟨htext.rest, ⟨[], rfl, rfl⟩, helement.apart reaches_of_readMessage htext⟩
  obtain ⟨stop, helement', hstop⟩ := helement.shadow (isLocal_readMessage o _ _ _)
    reaches_of_readMessage hshadow (Nat.le_refl _)
  have hover : stop.rest = [] := by simpa using hstop.rest
  have hread' : readAll o text = .ok ([e.relocate first.position.rebase], stop) :=
    readMessage_succ_iff.mpr ⟨.cons helement' (.nil stop), hover ▸ .message⟩
  rw [hslice, helement.location, parse, String.toList_ofList, hread']
  rfl

/-- A tag that begins on the second line of its message and goes on to the
third. -/
theorem parse_slice_of_two_lines :
    ∃ elements e, parse "x\ny<b>\nz</b>" {} = .ok elements ∧ e ∈ elements ∧
      e.location = ⟨⟨3, 2, 2⟩, ⟨12, 3, 6⟩⟩ ∧ e.location.slice "x\ny<b>\nz</b>" = "<b>\nz</b>" ∧
      parse "<b>\nz</b>" {} =
        .ok [.tag "b" [.literal "\nz" ⟨⟨3, 1, 4⟩, ⟨5, 2, 2⟩⟩] ⟨⟨0, 1, 1⟩, ⟨9, 2, 6⟩⟩] := by
  have hparse : parse "x\ny<b>\nz</b>" {} =
      .ok [.literal "x\ny" ⟨⟨0, 1, 1⟩, ⟨3, 2, 2⟩⟩,
        .tag "b" [.literal "\nz" ⟨⟨6, 2, 5⟩, ⟨8, 3, 2⟩⟩] ⟨⟨3, 2, 2⟩, ⟨12, 3, 6⟩⟩] := rfl
  have hmem : .tag "b" [.literal "\nz" ⟨⟨6, 2, 5⟩, ⟨8, 3, 2⟩⟩] ⟨⟨3, 2, 2⟩, ⟨12, 3, 6⟩⟩ ∈
      [Element.literal "x\ny" ⟨⟨0, 1, 1⟩, ⟨3, 2, 2⟩⟩,
        .tag "b" [.literal "\nz" ⟨⟨6, 2, 5⟩, ⟨8, 3, 2⟩⟩] ⟨⟨3, 2, 2⟩, ⟨12, 3, 6⟩⟩] :=
    List.mem_cons_of_mem _ List.mem_cons_self
  exact ⟨_, _, hparse, hmem, rfl, by decide, parse_slice hparse hmem⟩

end MessagePattern
