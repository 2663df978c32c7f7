/-
# What is read is well formed

Every tree that reading gives satisfies `WellFormedAt`: at the top level for a
whole message, and one level deeper for each tag and branch around a text.  The
proof goes once through the rules of reading; the only invariant that spans more
than one rule is that a literal is followed by something that is not literal
text.
-/

import MessagePattern.Proofs.Derivation
import MessagePattern.Proofs.SafeInteger
import MessagePattern.Proofs.StyleText

namespace MessagePattern

/-! ## Words -/

/-- Behind skipped white space there is no white space. -/
theorem head?_skipSpace (c : Cursor) : c.skipSpace.rest.head?.any isPatternSpace = false := by
  rw [Cursor.rest_skipSpace]
  exact Cursor.head?_dropWhile isPatternSpace c.rest

theorem isIdentifier_identifier {c : Cursor} (hspace : c.rest.head?.any isPatternSpace = false)
    (hne : c.identifier.1 ≠ "") : isIdentifier c.identifier.1.toList = true := by
  have htext : c.identifier.1.toList = c.rest.takeWhile isIdentifierChar := by
    simp [Cursor.identifier, Cursor.readWhile]
  have hnil : c.rest.takeWhile isIdentifierChar ≠ [] := by
    rw [← htext]
    simpa using hne
  have hall : (c.rest.takeWhile isIdentifierChar).all isIdentifierChar := List.all_takeWhile
  cases hrest : c.rest with
  | nil => simp [hrest] at hnil
  | cons ch rest =>
      rw [htext]
      rw [hrest] at hnil hall hspace
      simp only [List.takeWhile_cons] at hnil hall ⊢
      split at hnil
      · next hch => simp_all [isIdentifier]
      · exact absurd rfl hnil

theorem NameRead.isIdentifier {c d : Cursor} {name : String} (h : NameRead c name d) :
    isIdentifier name.toList = true := by
  obtain ⟨-, hne, rfl, -⟩ := h
  exact isIdentifier_identifier (head?_skipSpace _) hne

theorem isTagName_tagName {c : Cursor} {letter : Char} {text : List Char}
    (h : c.rest = letter :: text) (hletter : isTagLetter letter = true) :
    isTagName c.tagName.1.toList = true := by
  have hall : (text.takeWhile isTagNameChar).all isTagNameChar := List.all_takeWhile
  simp only [Cursor.tagName, h, List.take_succ_cons, List.take_zero, List.drop_succ_cons,
    List.drop_zero, List.cons_append, List.nil_append, String.toList_ofList, isTagName, hletter,
    Bool.true_and]
  exact hall

theorem isExactSelector_of_isSafeNumeral {text : List Char} (h : IsSafeNumeral text) :
    isExactSelector ('=' :: text) = true := by
  obtain ⟨hne, hdigits, hsafe⟩ := h
  simp_all [isExactSelector]

/-! ## Literals -/

/-- Two literals in a row are told apart by a self-closing tag. -/
theorem ElementRead.mayMeet {R : NestedRelation} {o : ParseOptions} {s : Scope}
    {c d f : Cursor} {e e' : Element} (first : ElementRead R o s c e d)
    (second : ElementRead R o s d e' f) : MayMeet o e e' := by
  have hself {c : Cursor} (h : ∃ letter text, c.rest = '<' :: letter :: text ∧
      isTagLetter letter = true) :
      isSelfClosingTag ("<" ++ c.bump.tagName.1 ++ "/>").toList = true := by
    obtain ⟨letter, text, hrest, hletter⟩ := h
    rw [isSelfClosingTag_iff]
    refine ⟨c.bump.tagName.1.toList, by simp, ?_⟩
    exact isTagName_tagName (Cursor.rest_bump_cons hrest) hletter
  cases first with
  | literal begins =>
      cases second with
      | literal begins' =>
          refine absurd ?_ begins'
          simpa [readLiteral] using endsLiteral_drop_literalText o s false c.rest
      | selfClosing tags begins' => exact ⟨tags, .inr (hself begins')⟩
      | _ => trivial
  | selfClosing tags begins =>
      cases second with
      | literal _ => exact ⟨tags, .inl (hself begins)⟩
      | selfClosing _ _ _ => exact ⟨tags, .inl (hself begins)⟩
      | _ => trivial
  | _ => trivial

/-! ## Selectors -/

theorem natAbs_numeralValue_le {text : List Char} (h : IsSafeNumeral text) :
    (numeralValue text).natAbs ≤ maxSafeInteger := by
  have hsafe := h.safe
  unfold numeralValue
  split <;> omega

theorem readOffset_eq_ok {plural : Bool} {c d : Cursor} {offset : Int}
    (hspace : c.rest.head?.any isPatternSpace = false)
    (h : readOffset plural c = .ok (offset, d)) :
    offset.natAbs ≤ maxSafeInteger ∧ d.rest.head?.any isPatternSpace = false := by
  unfold readOffset at h
  simp only at h
  split at h
  · obtain ⟨colon, -, rest⟩ := bind_eq_ok h
    obtain ⟨⟨n, stop⟩, hinteger, rest⟩ := bind_eq_ok rest
    cases rest
    obtain ⟨text, -, hnumeral, rfl, -⟩ := readInteger_eq_ok hinteger
    exact ⟨natAbs_numeralValue_le hnumeral, head?_skipSpace stop⟩
  · cases h
    exact ⟨by decide, hspace⟩

theorem readSelector_eq_ok {plural : Bool} {c d : Cursor} {selector : String}
    (hspace : c.rest.head?.any isPatternSpace = false)
    (h : readSelector plural c = .ok (some (selector, d))) :
    isSelectorText plural selector.toList = true := by
  unfold readSelector at h
  simp only at h
  split at h
  · next hne =>
      cases h
      simp [isSelectorText, isIdentifier_identifier hspace hne]
  split at h
  · next hplural =>
      split at h
      · cases h
      · next equals hequals =>
          obtain ⟨⟨n, stop⟩, hinteger, rest⟩ := bind_eq_ok h
          cases rest
          obtain ⟨text, htext, hnumeral, -, -⟩ := readInteger_eq_ok hinteger
          obtain ⟨⟨tail, htail⟩, rfl⟩ := Cursor.skip?_eq_some hequals
          have hrest : c.rest = ('=' :: text) ++ stop.rest := by
            rw [Cursor.rest_advance_append htail.symm] at htext
            rw [← htail, htext]
            rfl
          have hselector : stop.textSince c = '=' :: text := Cursor.textSince_of_rest hrest
          simp [isSelectorText, hplural, hselector, isExactSelector_of_isSafeNumeral hnumeral]
  · cases h

/-- The selectors of branches that were read can be read, and each is new. -/
theorem BranchesRead.selectors {R : NestedRelation} {s : Scope} {plural : Bool}
    {seen : List String} {c d : Cursor} {branches : List (Branch Element)}
    (h : BranchesRead R s plural seen c branches d)
    (hspace : c.rest.head?.any isPatternSpace = false) :
    (branches.map Branch.selector).Nodup ∧
      ∀ selector ∈ branches.map Branch.selector,
        selector ∉ seen ∧ isSelectorText plural selector.toList = true := by
  induction h with
  | nil seen c => simp
  | cons selected fresh opened inner closed rest ih =>
      obtain ⟨hnodup, hmem⟩ := ih (head?_skipSpace _)
      rw [List.map_cons, List.nodup_cons]
      refine ⟨⟨fun hrepeat => (hmem _ hrepeat).1 List.mem_cons_self, hnodup⟩, ?_⟩
      intro selector hselector
      rcases List.mem_cons.mp hselector with rfl | hselector
      · exact ⟨fresh, readSelector_eq_ok hspace selected⟩
      · obtain ⟨hseen, htext⟩ := hmem selector hselector
        exact ⟨fun hold => hseen (List.mem_cons_of_mem _ hold), htext⟩

theorem isPlural_selectorKind (offset : Int) (plural : Option PluralType) :
    (selectorKind offset plural).isPlural = plural.isSome := by
  cases plural <;> rfl

theorem isSafe_selectorKind {offset : Int} (h : offset.natAbs ≤ maxSafeInteger)
    (plural : Option PluralType) : (selectorKind offset plural).isSafe = true := by
  cases plural with
  | none => rfl
  | some type => simpa [selectorKind, SelectorKind.isSafe] using h

/-! ## Styles -/

/-- The text of a style that was read and closed. -/
theorem readOptionalStyle_eq_ok {c styled d : Cursor} {text : List Char} {location : Location}
    {opening : Position} (h : readOptionalStyle c = .ok (some (text, location), styled))
    (hclosed : styled.closeBrace opening = .ok d) :
    ∃ raw, text = trimEnd raw ∧ text ≠ [] ∧ raw.head?.any isPatternSpace = false ∧
      styleMatches 0 false raw := by
  unfold readOptionalStyle at h
  simp only at h
  split at h
  · cases h
  · next comma hcomma =>
      obtain ⟨⟨style, stop⟩, hstyle, rest⟩ := bind_eq_ok h
      cases rest
      obtain ⟨⟨tail, htail⟩, -⟩ := Cursor.expect_eq_ok hclosed
      obtain ⟨raw, hraw, htext, hne, hmatch, -⟩ :=
        readStyle_eq_ok hstyle ⟨tail, htail.symm⟩
      refine ⟨raw, htext, hne, ?_, hmatch⟩
      have hspace := head?_skipSpace comma
      rw [hraw, List.head?_append] at hspace
      cases hhead : raw.head? with
      | none => rfl
      | some ch => simpa [hhead] using hspace

/-! ## Elements -/

/-- Nested text is well formed at the level that its budget leaves. -/
def NestedWellFormed (o : ParseOptions) (budget : Nat) : NestedRelation :=
  fun s _ es _ => ∀ level, level + budget = o.maxNestingDepth + 1 →
    WellFormedAt o level s.plural es

section Rules

variable {o : ParseOptions} {budget level : Nat} {s : Scope}

theorem BranchesRead.wellFormed {plural : Bool} {seen : List String} {c d : Cursor}
    {branches : List (Branch Element)} (hlevel : level + budget = o.maxNestingDepth + 1)
    (h : BranchesRead (NestedWellFormed o budget) s plural seen c branches d) :
    BranchesWellFormed o level plural branches := by
  induction h with
  | nil => trivial
  | cons _ _ _ inner _ _ ih =>
      obtain ⟨hle, happart, hall⟩ := inner level hlevel
      exact ⟨⟨hle, happart, hall⟩, ih⟩

theorem ElementRead.wellFormed {c d : Cursor} {e : Element}
    (hlevel : level + (budget + 1) = o.maxNestingDepth + 1)
    (h : ElementRead (NestedWellFormed o budget) o s c e d) : e.WellFormed o level s.plural := by
  have hnested : level + 1 + budget = o.maxNestingDepth + 1 := by omega
  cases h with
  | literal begins =>
      have hsaid := literalText_ne_nil begins
      simpa [readLiteral, Element.WellFormed] using hsaid
  | argument named _ => exact named.isIdentifier
  | @number name typed styled d text style head read closed made =>
      obtain ⟨named, hname, -⟩ := head
      refine ⟨hname.isIdentifier, fun k hk => ?_⟩
      obtain ⟨text, location, rfl, hmade⟩ := made.exists_text hk
      obtain ⟨raw, rfl, hne, hspace, hmatch⟩ := readOptionalStyle_eq_ok read closed
      exact numberStyle_wellFormed hne hspace hmatch hmade
  | @dateTime kind name typed styled d text style head read closed made =>
      obtain ⟨named, hname, -⟩ := head
      refine ⟨hname.isIdentifier, fun k hk => ?_⟩
      obtain ⟨text, location, rfl, hmade⟩ := made.exists_text hk
      obtain ⟨raw, rfl, hne, hspace, hmatch⟩ := readOptionalStyle_eq_ok read closed
      exact dateTimeStyle_wellFormed hne hspace hmatch hmade
  | @selector plural name offset typed comma first last d branches head separated counted read
      nonempty other closed =>
      obtain ⟨named, hname, -⟩ := head
      obtain ⟨hoffset, hspace⟩ := readOffset_eq_ok (head?_skipSpace comma) counted
      obtain ⟨hnodup, hselectors⟩ := read.selectors hspace
      refine ⟨hname.isIdentifier, isSafe_selectorKind hoffset plural, ?_, ?_⟩
      · rw [isPlural_selectorKind]
        exact ⟨by simpa using nonempty, hnodup, fun selector hmem => (hselectors selector hmem).2,
          other⟩
      · rw [isPlural_selectorKind]
        exact read.wellFormed hnested
  | pound plural _ => exact plural
  | selfClosing _ _ _ => simp [Element.WellFormed]
  | tag tags begins _ inner _ =>
      obtain ⟨letter, text, hrest, hletter⟩ := begins
      obtain ⟨hle, happart, hall⟩ := inner (level + 1) hnested
      exact ⟨tags, isTagName_tagName (Cursor.rest_bump_cons hrest) hletter, hle, happart, hall⟩

theorem ElementsRead.wellFormed {c d : Cursor} {es : List Element}
    (hlevel : level + (budget + 1) = o.maxNestingDepth + 1)
    (h : ElementsRead (NestedWellFormed o budget) o s c es d) :
    WellFormedAt o level s.plural es := by
  induction h with
  | nil => exact ⟨by omega, .nil, trivial⟩
  | @cons c d f e es first rest ih =>
      refine ⟨ih.level_le, ?_, first.wellFormed hlevel, ih.elements⟩
      cases rest with
      | nil => exact .singleton e
      | cons second _ => exact List.isChain_cons_cons.mpr ⟨first.mayMeet second, ih.apart⟩

end Rules

/-- Whatever is read in a scope is well formed at the level of the scope. -/
theorem readMessage_wellFormed {o : ParseOptions} {budget : Nat} {s : Scope} {c d : Cursor}
    {es : List Element} (h : readMessage o budget s c = .ok (es, d)) :
    NestedWellFormed o budget s c es d :=
  readMessage_induction (P := NestedWellFormed o)
    (fun _ _ _ _ _ read _ hlevel => read.wellFormed hlevel) h

/-- Every message that can be read gives a well-formed tree. -/
theorem wellFormedAt_of_parse {message : String} {o : ParseOptions} {elements : List Element}
    (h : parse message o = .ok elements) : WellFormedAt o 0 false elements := by
  obtain ⟨d, hread⟩ := readAll_of_parse h
  exact readMessage_wellFormed hread 0 (by omega)

end MessagePattern
