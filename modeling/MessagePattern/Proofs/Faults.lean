/-
# Where faults are found

A failure tells the location of what is wrong.  Each reader takes such a location
from cursors that it has passed itself, or from the opening position that it was
handed; so whatever fails, fails at a part of the text that was ahead when the
element began.

There is one lemma for each reader.  The cursor `start` is where the enclosing
element began, and every lemma assumes no more than that it leads to the cursor
of the reader.
-/

import MessagePattern.Proofs.Places
import MessagePattern.Proofs.Exactness

namespace MessagePattern

open Cursor

/-- Whatever went wrong is located ahead of the cursor. -/
def FaultsSeen {α : Type} (start : Cursor) (outcome : Except Failure α) : Prop :=
  ∀ f, outcome = .error f → start.Sees f.location

namespace FaultsSeen

variable {α β : Type} {start : Cursor}

theorem ok (a : α) : FaultsSeen start (.ok a) := fun _ h => nomatch h

theorem fail {c : Cursor} {kind : ErrorKind} {location : Location} (h : start.Sees location) :
    FaultsSeen start (c.fail kind location : Except Failure α) := by
  intro f hf
  cases hf
  exact h

theorem failWith {c : Cursor} {kind : ErrorKind} {location : Location} {cause : SkeletonError}
    (h : start.Sees location) :
    FaultsSeen start (c.failWith kind location cause : Except Failure α) := by
  intro f hf
  cases hf
  exact h

/-- In a sequence of steps either the first fails or one behind it. -/
theorem bind {x : Except Failure α} {next : α → Except Failure β} (hx : FaultsSeen start x)
    (hnext : ∀ a, x = .ok a → FaultsSeen start (next a)) : FaultsSeen start (x >>= next) :=
  FaultsObey.bind hx hnext

theorem map {x : Except Failure α} {f : α → β} (hx : FaultsSeen start x) :
    FaultsSeen start (f <$> x) :=
  FaultsObey.map hx

theorem of_reaches {c : Cursor} {x : Except Failure α} (h : start.Reaches c)
    (hx : FaultsSeen c x) : FaultsSeen start x :=
  fun f hf => h.sees (hx f hf)

theorem expect {text : List Char} {c : Cursor} {kind : ErrorKind} {location : Location}
    (h : start.Sees location) : FaultsSeen start (c.expect text kind location) := by
  unfold Cursor.expect
  split
  · exact ok _
  · exact fail h

theorem closeBrace {c : Cursor} (h : start.Reaches c) :
    FaultsSeen start (c.closeBrace start.position) :=
  expect ((Reaches.refl start).sees_since h)

end FaultsSeen

/-- A style is located behind the type of its argument. -/
theorem sees_style {c d : Cursor} {text : List Char} {location : Location}
    (h : readOptionalStyle c = .ok (some (text, location), d)) : c.Sees location := by
  rcases readOptionalStyle_cases h with ⟨hnone, -⟩ | ⟨_, _, comma, hsome, hcomma, hstyle⟩
  · cases hnone
  · cases hsome
    obtain ⟨hreaches, rfl⟩ := readStyle_located hstyle
    exact (reaches_style hcomma).sees_since hreaches

section Readers

variable {start c : Cursor} (h : start.Reaches c)

include h

/-! ## Numerals and styles -/

theorem faultsSeen_readInteger (absent excessive : ErrorKind) :
    FaultsSeen start (readInteger absent excessive c) := by
  unfold readInteger
  simp only
  split
  · exact .fail (h.sees_since (reaches_advance _ c))
  split
  · exact .fail (h.sees_since (reaches_advance _ c))
  · exact .ok _

theorem faultsSeen_readOffset (plural : Bool) : FaultsSeen start (readOffset plural c) := by
  have hword := h.trans (reaches_identifier c)
  unfold readOffset
  simp only
  split
  · apply FaultsSeen.bind (.expect hword.sees_here)
    intro colon hcolon
    apply FaultsSeen.bind
    · exact faultsSeen_readInteger
        ((hword.trans (.of_expect hcolon)).trans (reaches_skipSpace colon)) _ _
    · exact fun _ _ => .ok _
  · exact .ok _

theorem faultsSeen_readSelector (plural : Bool) : FaultsSeen start (readSelector plural c) := by
  unfold readSelector
  simp only
  split
  · exact .ok _
  split
  · split
    · exact .ok _
    · next equals hequals =>
        apply FaultsSeen.bind
        · exact faultsSeen_readInteger (h.trans (Passes.of_skip? hequals).reaches) _ _
        · exact fun _ _ => .ok _
  · exact .ok _

theorem faultsSeen_readStyle : FaultsSeen start (readStyle c) := by
  apply FaultsSeen.bind
  · unfold readStyleText
    split
    · exact .ok _
    · next n _ =>
        exact .fail ((h.trans (reaches_advance n c)).sees_since (reaches_end c n))
  · rintro ⟨text, stop⟩ htext
    have hstop := h.trans (reaches_of_readStyleText htext)
    simp only
    split
    · exact .fail hstop.sees_here
    · exact .ok _

theorem faultsSeen_readOptionalStyle : FaultsSeen start (readOptionalStyle c) := by
  unfold readOptionalStyle
  simp only
  split
  · exact .ok _
  · next comma hcomma =>
      apply FaultsSeen.bind
      · exact faultsSeen_readStyle ((h.trans (reaches_skipSpace c)).trans
          ((Passes.of_skip? hcomma).reaches.trans (reaches_skipSpace comma)))
      · exact fun _ _ => .ok _

omit h in
theorem faultsSeen_numberStyle (o : ParseOptions) (text : List Char) {location : Location}
    (c : Cursor) (hlocation : start.Sees location) :
    FaultsSeen start (numberStyle o text location c) := by
  unfold numberStyle
  repeat' split
  all_goals first | exact .ok _ | exact .fail hlocation | exact .failWith hlocation

omit h in
theorem faultsSeen_dateTimeStyle (o : ParseOptions) (text : List Char)
    {location element : Location} (c : Cursor) (hlocation : start.Sees location)
    (helement : start.Sees element) :
    FaultsSeen start (dateTimeStyle o text location element c) := by
  unfold dateTimeStyle
  repeat' split
  all_goals first
    | exact .ok _
    | exact .fail helement
    | exact .failWith hlocation

theorem faultsSeen_readNumber (o : ParseOptions) (name : String) :
    FaultsSeen start (readNumber o name start.position c) := by
  apply FaultsSeen.bind (faultsSeen_readOptionalStyle h)
  rintro ⟨text, styled⟩ hstyle
  have hstyled := h.trans (reaches_of_readOptionalStyle hstyle)
  apply FaultsSeen.bind (.closeBrace hstyled)
  intro d hd
  match text with
  | none => exact .ok _
  | some (text, location) =>
      apply FaultsSeen.bind (faultsSeen_numberStyle o text d (h.sees (sees_style hstyle)))
      exact fun _ _ => .ok _

theorem faultsSeen_readDateTime (o : ParseOptions) (kind : DateTimeKind) (name : String) :
    FaultsSeen start (readDateTime o kind name start.position c) := by
  apply FaultsSeen.bind (faultsSeen_readOptionalStyle h)
  rintro ⟨text, styled⟩ hstyle
  have hstyled := h.trans (reaches_of_readOptionalStyle hstyle)
  apply FaultsSeen.bind (.closeBrace hstyled)
  intro d hd
  match text with
  | none => exact .ok _
  | some (text, location) =>
      have helement := (Reaches.refl start).sees_since (hstyled.trans (.of_closeBrace hd))
      apply FaultsSeen.bind
        (faultsSeen_dateTimeStyle o text d (h.sees (sees_style hstyle)) helement)
      exact fun _ _ => .ok _

theorem faultsSeen_readClosingTag (name : String) :
    FaultsSeen start (readClosingTag name start.position c) := by
  apply FaultsSeen.bind (.expect ((Reaches.refl start).sees_since h))
  intro slash hslash
  have hopened := Reaches.of_expect hslash
  have hname := hopened.trans (reaches_tagName slash)
  simp only
  split
  · exact .fail (h.sees_since hopened)
  split
  · exact .fail ((h.trans hopened).sees_since (reaches_tagName slash))
  · exact .expect (h.sees_since (hname.trans (reaches_skipSpace _)))

end Readers

/-! ## Readers with nested text -/

section Nested

variable {inner : NestedReader} (hinner : ∀ s c, FaultsSeen c (inner s c))
  (hreach : ∀ {s c es d}, inner.Gives s c es d → c.Reaches d) {start c : Cursor}

include hinner hreach

theorem faultsSeen_readBranches (s : Scope) (plural : Bool) (bound : Nat) (seen : List String)
    (h : start.Reaches c) : FaultsSeen start (readBranches inner s plural bound seen c) := by
  induction bound generalizing seen c with
  | zero => exact .ok _
  | succ bound ih =>
      apply FaultsSeen.bind (faultsSeen_readSelector h plural)
      intro found hfound
      match found with
      | none => exact .ok _
      | some (selector, d) =>
          have hselector := reaches_of_readSelector hfound
          simp only
          split
          · exact .fail (h.sees_since hselector)
          · have hopening := (h.trans hselector).trans (reaches_skipSpace d)
            apply FaultsSeen.bind
            · apply FaultsSeen.bind (.expect hopening.sees_here)
              intro body hbody
              have hopened := Reaches.of_expect hbody
              apply FaultsSeen.bind (.of_reaches (hopening.trans hopened) (hinner _ body))
              rintro ⟨value, stop⟩ hvalue
              apply FaultsSeen.bind
              · exact .of_reaches hopening (.closeBrace (hopened.trans (hreach hvalue)))
              · exact fun _ _ => .ok _
            · rintro ⟨branch, next⟩ hbranch
              apply FaultsSeen.bind
              · exact ih _ ((h.trans hselector).trans (reaches_of_readFragment hreach hbranch))
              · exact fun _ _ => .ok _

theorem faultsSeen_readSelectorArgument (o : ParseOptions) (s : Scope)
    (plural : Option PluralType) (name : String) (h : start.Reaches c) :
    FaultsSeen start (readSelectorArgument inner o s plural name start.position c) := by
  apply FaultsSeen.bind (.expect h.sees_here)
  intro comma hcomma
  have hfirst := (h.trans (reaches_skipSpace c)).trans
    ((Reaches.of_expect hcomma).trans (reaches_skipSpace comma))
  apply FaultsSeen.bind (faultsSeen_readOffset hfirst _)
  rintro ⟨offset, first⟩ hoffset
  have hbranches := hfirst.trans (reaches_of_readOffset hoffset)
  apply FaultsSeen.bind
  · apply FaultsSeen.bind (faultsSeen_readBranches hinner hreach s _ _ _ hbranches)
    rintro ⟨branches, last⟩ hread
    have hlast := hbranches.trans (reaches_of_readBranches hreach hread)
    simp only
    split
    · exact .fail hlast.sees_here
    split
    · exact .fail hlast.sees_here
    · exact .ok _
  · rintro ⟨branches, last⟩ hread
    apply FaultsSeen.bind (.closeBrace (hbranches.trans (reaches_of_readAllBranches hreach hread)))
    exact fun _ _ => .ok _

theorem faultsSeen_readTypedArgument (o : ParseOptions) (s : Scope) (name : String)
    (h : start.Reaches c) :
    FaultsSeen start (readTypedArgument inner o s name start.position c) := by
  have hword := h.trans (reaches_identifier c)
  unfold readTypedArgument
  simp only
  split
  · exact .fail h.sees_here
  split
  · exact .fail (h.sees_since (reaches_identifier c))
  · exact faultsSeen_readNumber hword o name
  · exact faultsSeen_readDateTime hword o _ name
  · exact faultsSeen_readSelectorArgument hinner hreach o s _ name hword

theorem faultsSeen_readArgument (o : ParseOptions) (s : Scope) :
    FaultsSeen c (readArgument inner o s c) := by
  have hopened := (reaches_bump c).trans (reaches_skipSpace c.bump)
  have hnamed := hopened.trans (reaches_identifier c.bump.skipSpace)
  have hstart := Reaches.refl c
  unfold readArgument
  simp only
  split
  · exact .fail (hstart.sees_since hopened)
  split
  · exact .fail (hstart.sees_since (hopened.trans (reaches_bump _)))
  split
  · exact .fail (hstart.sees_since hnamed)
  · have htail := hnamed.trans (reaches_skipSpace _)
    have htyped := htail.trans ((reaches_bump _).trans (reaches_skipSpace _))
    unfold readArgumentTail
    split
    · exact .fail (hstart.sees_since htail)
    split
    · exact .ok _
    split
    · simp only
      split
      · exact .fail (hstart.sees_since htyped)
      · exact faultsSeen_readTypedArgument hinner hreach o s _ htyped
    · exact .fail (hstart.sees_since htail)

theorem faultsSeen_readTag (s : Scope) : FaultsSeen c (readTag inner s c) := by
  have hnamed := ((reaches_bump c).trans (reaches_tagName c.bump)).trans (reaches_skipSpace _)
  unfold readTag
  simp only
  split
  · exact .ok _
  · apply FaultsSeen.bind (.expect ((Reaches.refl c).sees_since hnamed))
    intro body hbody
    have hopened := hnamed.trans (.of_expect hbody)
    apply FaultsSeen.bind (.of_reaches hopened (hinner _ body))
    rintro ⟨children, stop⟩ hchildren
    apply FaultsSeen.bind (faultsSeen_readClosingTag (hopened.trans (hreach hchildren)) _)
    exact fun _ _ => .ok _

theorem faultsSeen_readElement (o : ParseOptions) (s : Scope) :
    FaultsSeen c (readElement inner o s c) := by
  unfold readElement
  split
  · exact .ok _
  split
  · exact (faultsSeen_readArgument hinner hreach o s).map
  split
  · exact .ok _
  split
  · exact .ok _
  split
  · split
    · exact .ok _
    · exact .fail (Reaches.refl c).sees_here
  split
  · exact (faultsSeen_readTag hinner hreach s).map
  · exact .ok _

theorem faultsSeen_readElements (o : ParseOptions) (s : Scope) (bound : Nat)
    (h : start.Reaches c) : FaultsSeen start (readElements inner o s bound c) := by
  induction bound generalizing c with
  | zero => exact .ok _
  | succ bound ih =>
      apply FaultsSeen.bind (.of_reaches h (faultsSeen_readElement hinner hreach o s))
      intro found hfound
      match found with
      | none => exact .ok _
      | some (e, d) =>
          have hd := h.trans (((readElement_iff hreach).mp hfound).reaches hreach)
          apply FaultsSeen.bind (ih hd)
          exact fun _ _ => .ok _

end Nested

/-- Reading fails nowhere but ahead of where it began. -/
theorem faultsSeen_readMessage (o : ParseOptions) (budget : Nat) (s : Scope) (c : Cursor) :
    FaultsSeen c (readMessage o budget s c) := by
  induction budget generalizing s c with
  | zero => exact .fail (Reaches.refl c).sees_here
  | succ budget ih => exact faultsSeen_readElements ih reaches_of_readMessage o s _ (.refl c)

end MessagePattern
