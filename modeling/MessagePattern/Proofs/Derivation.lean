/-
# How a message was read

A successful reading is described here as a derivation: one rule for each way an
element can be read, with the cursors that the steps of the rule passed.  What a
rule says of nested text is left open as a relation `R`, just as the readers
leave it open as a reader; `readMessage_induction` ties the knot on the nesting
budget.

Every fact about all messages that can be read is proved by giving `R` a meaning
and going through the rules, so no such proof has to look into a reader.
-/

import MessagePattern.Proofs.Cursor
import MessagePattern.Proofs.LiteralText
import MessagePattern.Proofs.Outcome
import MessagePattern.Reader.Message

namespace MessagePattern

/-- What is known of nested text: in which scope and between which cursors it was
read, and the elements that it gave. -/
abbrev NestedRelation := Scope → Cursor → List Element → Cursor → Prop

/-- The cursor went over the opening brace and the name of an argument, with the
white space around the name. -/
structure NameRead (c : Cursor) (name : String) (d : Cursor) : Prop where
  brace : ∃ text, c.rest = '{' :: text
  nonempty : name ≠ ""
  identifier : c.bump.skipSpace.identifier.1 = name
  stop : d = c.bump.skipSpace.identifier.2.skipSpace

/-- The cursor went over an argument up to and with its type. -/
def TypeRead (c : Cursor) (name : String) (type : ArgumentType) (d : Cursor) : Prop :=
  ∃ named, NameRead c name named ∧ (∃ text, named.rest = ',' :: text) ∧
    argumentTypes.lookup named.bump.skipSpace.identifier.1 = some type ∧
    d = named.bump.skipSpace.identifier.2

/-- There is one name to read, and one place behind it. -/
theorem NameRead.unique {c d d' : Cursor} {name name' : String} (h : NameRead c name d)
    (h' : NameRead c name' d') : name = name' ∧ d = d' :=
  ⟨h.identifier.symm.trans h'.identifier, h.stop.trans h'.stop.symm⟩

/-- An argument without the text of a style has no style, and one with it has the
style that is made of the text. -/
def StyleMade {σ : Type} (make : List Char → Location → Except Failure (Style σ)) :
    Option (List Char × Location) → Option (Style σ) → Prop
  | none, style => style = none
  | some (text, location), style => ∃ made, make text location = .ok made ∧ style = some made

/-- A style that an argument has was made of the text that was read. -/
theorem StyleMade.exists_text {σ : Type} {make : List Char → Location → Except Failure (Style σ)}
    {text : Option (List Char × Location)} {style : Option (Style σ)}
    (h : StyleMade make text style) {made : Style σ} (hmade : made ∈ style) :
    ∃ style location, text = some (style, location) ∧ make style location = .ok made := by
  match text, h with
  | none, h =>
      rw [StyleMade] at h
      simp [h] at hmade
  | some (style, location), ⟨made', hmake, hstyle⟩ =>
      rw [hstyle, Option.mem_some_iff] at hmade
      exact ⟨style, location, rfl, hmade ▸ hmake⟩

/-- The branches of a selector, read one after the other. -/
inductive BranchesRead (R : NestedRelation) (s : Scope) (plural : Bool) :
    List String → Cursor → List (Branch Element) → Cursor → Prop
  | nil (seen : List String) (c : Cursor) : BranchesRead R s plural seen c [] c
  | cons {seen : List String} {c opening body stop after d : Cursor} {selector : String}
      {value : List Element} {branches : List (Branch Element)}
      (selected : readSelector plural c = .ok (some (selector, opening)))
      (fresh : selector ∉ seen)
      (opened : opening.skipSpace.expect ['{'] (SelectorErrors.of plural).fragment
        opening.skipSpace.here = .ok body)
      (inner : R (s.branch plural) body value stop)
      (closed : stop.closeBrace opening.skipSpace.position = .ok after)
      (rest : BranchesRead R s plural (selector :: seen) after.skipSpace branches d) :
      BranchesRead R s plural seen c
        (⟨selector, value, after.since opening.skipSpace.position⟩ :: branches) d

/-- One element, read from `c` on. -/
inductive ElementRead (R : NestedRelation) (o : ParseOptions) (s : Scope) (c : Cursor) :
    Element → Cursor → Prop
  | literal (begins : ¬ EndsLiteral o s c.rest) :
      ElementRead R o s c (readLiteral o s c).1 (readLiteral o s c).2
  | argument {name : String} {d : Cursor} (named : NameRead c name d)
      (closed : ∃ text, d.rest = '}' :: text) :
      ElementRead R o s c (.argument name (d.bump.since c.position)) d.bump
  | number {name : String} {typed styled d : Cursor} {text : Option (List Char × Location)}
      {style : Option (Style NumberSkeleton)} (head : TypeRead c name .number typed)
      (read : readOptionalStyle typed = .ok (text, styled))
      (closed : styled.closeBrace c.position = .ok d)
      (made : StyleMade (numberStyle o · · d) text style) :
      ElementRead R o s c (.number name style (d.since c.position)) d
  | dateTime {kind : DateTimeKind} {name : String} {typed styled d : Cursor}
      {text : Option (List Char × Location)} {style : Option (Style DateTimeSkeleton)}
      (head : TypeRead c name (.dateTime kind) typed)
      (read : readOptionalStyle typed = .ok (text, styled))
      (closed : styled.closeBrace c.position = .ok d)
      (made : StyleMade (dateTimeStyle o · · (d.since c.position) d) text style) :
      ElementRead R o s c (.dateTime kind name style (d.since c.position)) d
  | selector {plural : Option PluralType} {name : String} {offset : Int}
      {typed comma first last d : Cursor} {branches : List (Branch Element)}
      (head : TypeRead c name (.selector plural) typed)
      (separated : typed.skipSpace.expect [','] .expectSelectArgumentOptions typed.here =
        .ok comma)
      (counted : readOffset plural.isSome comma.skipSpace = .ok (offset, first))
      (read : BranchesRead R s plural.isSome [] first branches last)
      (nonempty : branches ≠ [])
      (other : o.requiresOtherClause = true → "other" ∈ branches.map Branch.selector)
      (closed : last.closeBrace c.position = .ok d) :
      ElementRead R o s c
        (.selector (selectorKind offset plural) name branches (d.since c.position)) d
  | pound (plural : s.plural = true) (sign : ∃ text, c.rest = '#' :: text) :
      ElementRead R o s c (.pound (c.bump.since c.position)) c.bump
  | selfClosing {d : Cursor} (tags : o.ignoreTag = false)
      (begins : ∃ letter text, c.rest = '<' :: letter :: text ∧ isTagLetter letter = true)
      (closed : c.bump.tagName.2.skipSpace.skip? ['/', '>'] = some d) :
      ElementRead R o s c (.literal ("<" ++ c.bump.tagName.1 ++ "/>") (d.since c.position)) d
  | tag {body stop d : Cursor} {children : List Element} (tags : o.ignoreTag = false)
      (begins : ∃ letter text, c.rest = '<' :: letter :: text ∧ isTagLetter letter = true)
      (opened : c.bump.tagName.2.skipSpace.expect ['>'] .invalidTag
        (c.bump.tagName.2.skipSpace.since c.position) = .ok body)
      (inner : R s.tagBody body children stop)
      (closed : readClosingTag c.bump.tagName.1 c.position stop = .ok d) :
      ElementRead R o s c (.tag c.bump.tagName.1 children (d.since c.position)) d

/-- The elements of one scope, read one after the other. -/
inductive ElementsRead (R : NestedRelation) (o : ParseOptions) (s : Scope) :
    Cursor → List Element → Cursor → Prop
  | nil (c : Cursor) : ElementsRead R o s c [] c
  | cons {c d f : Cursor} {e : Element} {es : List Element} (first : ElementRead R o s c e d)
      (rest : ElementsRead R o s d es f) : ElementsRead R o s c (e :: es) f

/-! ## Every successful reading has a derivation -/

section Inversion

variable {inner : NestedReader} {R : NestedRelation} {o : ParseOptions} {s : Scope}

theorem branchesRead_of_ok (hinner : ∀ s c es d, inner s c = .ok (es, d) → R s c es d)
    {plural : Bool} {bound : Nat} {seen : List String} {c d : Cursor}
    {branches : List (Branch Element)}
    (h : readBranches inner s plural bound seen c = .ok (branches, d)) :
    BranchesRead R s plural seen c branches d := by
  induction bound generalizing seen c branches d with
  | zero =>
      cases h
      exact .nil seen c
  | succ bound ih =>
      obtain ⟨found, hfound, rest⟩ := bind_eq_ok h
      cases found with
      | none =>
          cases rest
          exact .nil seen c
      | some pair =>
          obtain ⟨selector, opening⟩ := pair
          simp only at rest
          split at rest
          · cases rest
          · next hfresh =>
              obtain ⟨⟨branch, next⟩, hfragment, rest⟩ := bind_eq_ok rest
              obtain ⟨⟨others, last⟩, hothers, rest⟩ := bind_eq_ok rest
              cases rest
              obtain ⟨body, hopened, hfragment⟩ := bind_eq_ok hfragment
              obtain ⟨⟨value, stop⟩, hvalue, hfragment⟩ := bind_eq_ok hfragment
              obtain ⟨after, hclosed, hfragment⟩ := bind_eq_ok hfragment
              cases hfragment
              exact .cons hfound hfresh hopened (hinner _ _ _ _ hvalue) hclosed (ih hothers)

/-- A number is read with the text of its style, and the style is made behind the brace. -/
theorem readNumber_eq_ok {name : String} {opening : Position} {c d : Cursor} {e : Element}
    (h : readNumber o name opening c = .ok (e, d)) :
    ∃ text styled style, readOptionalStyle c = .ok (text, styled) ∧
      styled.closeBrace opening = .ok d ∧ StyleMade (numberStyle o · · d) text style ∧
      e = .number name style (d.since opening) := by
  obtain ⟨⟨text, styled⟩, hread, rest⟩ := bind_eq_ok h
  obtain ⟨stop, hclosed, rest⟩ := bind_eq_ok rest
  cases text with
  | none =>
      cases rest
      exact ⟨none, styled, none, hread, hclosed, rfl, rfl⟩
  | some text =>
      obtain ⟨style, hstyle, rest⟩ := bind_eq_ok rest
      cases rest
      exact ⟨some text, styled, some style, hread, hclosed, ⟨style, hstyle, rfl⟩, rfl⟩

theorem readDateTime_eq_ok {kind : DateTimeKind} {name : String} {opening : Position}
    {c d : Cursor} {e : Element} (h : readDateTime o kind name opening c = .ok (e, d)) :
    ∃ text styled style, readOptionalStyle c = .ok (text, styled) ∧
      styled.closeBrace opening = .ok d ∧
      StyleMade (dateTimeStyle o · · (d.since opening) d) text style ∧
      e = .dateTime kind name style (d.since opening) := by
  obtain ⟨⟨text, styled⟩, hread, rest⟩ := bind_eq_ok h
  obtain ⟨stop, hclosed, rest⟩ := bind_eq_ok rest
  cases text with
  | none =>
      cases rest
      exact ⟨none, styled, none, hread, hclosed, rfl, rfl⟩
  | some text =>
      obtain ⟨style, hstyle, rest⟩ := bind_eq_ok rest
      cases rest
      exact ⟨some text, styled, some style, hread, hclosed, ⟨style, hstyle, rfl⟩, rfl⟩

theorem elementRead_of_readTypedArgument
    (hinner : ∀ s c es d, inner s c = .ok (es, d) → R s c es d) {c named d : Cursor}
    {name : String} {e : Element} (hname : NameRead c name named)
    (hcomma : ∃ text, named.rest = ',' :: text)
    (h : readTypedArgument inner o s name c.position named.bump.skipSpace = .ok (e, d)) :
    ElementRead R o s c e d := by
  unfold readTypedArgument at h
  simp only at h
  split at h
  · cases h
  split at h
  · cases h
  · next htype =>
      obtain ⟨text, styled, style, hread, hclosed, hmade, rfl⟩ := readNumber_eq_ok h
      exact .number ⟨named, hname, hcomma, htype, rfl⟩ hread hclosed hmade
  · next kind htype =>
      obtain ⟨text, styled, style, hread, hclosed, hmade, rfl⟩ := readDateTime_eq_ok h
      exact .dateTime ⟨named, hname, hcomma, htype, rfl⟩ hread hclosed hmade
  · next plural htype =>
      obtain ⟨comma, hseparated, rest⟩ := bind_eq_ok h
      obtain ⟨⟨offset, first⟩, hoffset, rest⟩ := bind_eq_ok rest
      obtain ⟨⟨branches, last⟩, hbranches, rest⟩ := bind_eq_ok rest
      obtain ⟨stop, hclosed, rest⟩ := bind_eq_ok rest
      cases rest
      obtain ⟨⟨found, afterwards⟩, hfound, hbranches⟩ := bind_eq_ok hbranches
      simp only at hbranches
      split at hbranches
      · cases hbranches
      split at hbranches
      · cases hbranches
      next hempty hother =>
        cases hbranches
        refine .selector ⟨named, hname, hcomma, htype, rfl⟩ hseparated hoffset
          (branchesRead_of_ok hinner hfound) (by simpa using hempty) ?_ hclosed
        intro hrequired
        exact Classical.not_not.mp fun hmissing => hother ⟨hrequired, hmissing⟩

theorem elementRead_of_readArgument
    (hinner : ∀ s c es d, inner s c = .ok (es, d) → R s c es d) {c d : Cursor} {e : Element}
    (hbrace : ∃ text, c.rest = '{' :: text) (h : readArgument inner o s c = .ok (e, d)) :
    ElementRead R o s c e d := by
  unfold readArgument at h
  simp only at h
  split at h
  · cases h
  split at h
  · cases h
  split at h
  · cases h
  next hne =>
    have hname : NameRead c c.bump.skipSpace.identifier.1
        c.bump.skipSpace.identifier.2.skipSpace := ⟨hbrace, hne, rfl, rfl⟩
    unfold readArgumentTail at h
    split at h
    · cases h
    · next ch text hrest =>
        split at h
        · next hclose =>
            cases h
            exact .argument hname ⟨text, by rw [hrest, hclose]⟩
        split at h
        · next hcomma =>
            simp only at h
            split at h
            · cases h
            · exact elementRead_of_readTypedArgument hinner hname
                ⟨text, by rw [hrest, hcomma]⟩ h
        · cases h

theorem elementRead_of_readTag (hinner : ∀ s c es d, inner s c = .ok (es, d) → R s c es d)
    {c d : Cursor} {e : Element} (htags : o.ignoreTag = false)
    (hbegins : ∃ letter text, c.rest = '<' :: letter :: text ∧ isTagLetter letter = true)
    (h : readTag inner s c = .ok (e, d)) : ElementRead R o s c e d := by
  unfold readTag at h
  simp only at h
  split at h
  · next hclosed =>
      cases h
      exact .selfClosing htags hbegins hclosed
  · obtain ⟨body, hopened, rest⟩ := bind_eq_ok h
    obtain ⟨⟨children, stop⟩, hchildren, rest⟩ := bind_eq_ok rest
    obtain ⟨after, hclosed, rest⟩ := bind_eq_ok rest
    cases rest
    exact .tag htags hbegins hopened (hinner _ _ _ _ hchildren) hclosed

/-- Each element that is read is read by one of the rules. -/
theorem elementRead_of_ok (hinner : ∀ s c es d, inner s c = .ok (es, d) → R s c es d)
    {c d : Cursor} {e : Element} (h : readElement inner o s c = .ok (some (e, d))) :
    ElementRead R o s c e d := by
  unfold readElement at h
  split at h
  · cases h
  · next ch text hrest =>
      split at h
      · next hbrace =>
          obtain ⟨pair, hpair, heq⟩ := map_eq_ok h
          cases heq
          exact elementRead_of_readArgument hinner ⟨text, by rw [hrest, hbrace]⟩ hpair
      next hbrace =>
      split at h
      · cases h
      next hclose =>
      split at h
      · next hpound =>
          cases h
          exact .pound hpound.2 ⟨text, by rw [hrest, hpound.1]⟩
      next hpound =>
      split at h
      · split at h <;> cases h
      next hslash =>
      split at h
      · next htag =>
          obtain ⟨pair, hpair, heq⟩ := map_eq_ok h
          cases heq
          obtain ⟨rfl, htags, hletter⟩ := htag
          cases text with
          | nil => cases hletter
          | cons letter text =>
              exact elementRead_of_readTag hinner (by simpa using htags)
                ⟨letter, text, hrest, hletter⟩ hpair
      · next htag =>
          cases h
          refine .literal fun hends => ?_
          rw [hrest] at hends
          simp only [EndsLiteral, Scope.endsLiteral] at hends
          split at hends
          · exact hbrace rfl
          · exact hclose ⟨rfl, hends⟩
          · exact hpound ⟨rfl, hends⟩
          · cases text with
            | nil => simp at hends
            | cons next text =>
                simp only [isTagStart, List.head?_cons, Option.any_some, Bool.and_eq_true,
                  Bool.or_eq_true, beq_iff_eq] at hends
                rcases hends.2 with hletter | rfl
                · exact htag ⟨rfl, hends.1, hletter⟩
                · exact hslash ⟨rfl, hends.1, rfl⟩
          · cases hends

theorem elementsRead_of_ok (hinner : ∀ s c es d, inner s c = .ok (es, d) → R s c es d)
    {bound : Nat} {c d : Cursor} {es : List Element}
    (h : readElements inner o s bound c = .ok (es, d)) : ElementsRead R o s c es d := by
  induction bound generalizing c es d with
  | zero =>
      cases h
      exact .nil c
  | succ bound ih =>
      obtain ⟨found, hfound, rest⟩ := bind_eq_ok h
      cases found with
      | none =>
          cases rest
          exact .nil c
      | some pair =>
          obtain ⟨e, next⟩ := pair
          obtain ⟨⟨others, last⟩, hothers, rest⟩ := bind_eq_ok rest
          cases rest
          exact .cons (elementRead_of_ok hinner hfound) (ih hothers)

end Inversion

/-- What holds of the text of a scope as soon as it holds of the nested texts
holds of every text that is read. -/
theorem readMessage_induction {o : ParseOptions} {P : Nat → NestedRelation}
    (step : ∀ budget s c es d, ElementsRead (P budget) o s c es d → P (budget + 1) s c es d) :
    ∀ {budget s c es d}, readMessage o budget s c = .ok (es, d) → P budget s c es d := by
  intro budget
  induction budget with
  | zero =>
      intro s c es d h
      cases h
  | succ budget ih =>
      intro s c es d h
      have hinner : ∀ s c es d, readMessage o budget s c = .ok (es, d) → P budget s c es d :=
        fun _ _ _ _ hnested => ih hnested
      exact step budget s c es d (elementsRead_of_ok hinner h)

theorem readAll_of_parse {message : String} {o : ParseOptions} {elements : List Element}
    (h : parse message o = .ok elements) : ∃ d, readAll o message.toList = .ok (elements, d) := by
  unfold parse at h
  split at h
  · next d hread =>
      cases h
      exact ⟨d, hread⟩
  · cases h

end MessagePattern
