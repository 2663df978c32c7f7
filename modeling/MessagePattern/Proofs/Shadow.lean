/-
# Reading a part of a message by itself

A cursor in a part of a message has a shadow: the cursor at the same place when
the part is read as a message of its own.  In front of the two there is the same
text, but for a tail that only the first of them sees.

Whatever a reader does within the part, it does on the shadow as well.  It may
look beyond the part while it does so, at the scalar behind an angle bracket, an
apostrophe or a word; the lemmas here say that it finds nothing there that would
have kept it inside.  All of them ask that reading ends within the part, where
`tail` is still ahead.
-/

import MessagePattern.Proofs.Relocation
import MessagePattern.Proofs.StyleText
import MessagePattern.Proofs.Progress

namespace MessagePattern

open Cursor

/-- The second cursor stands where the first does, in a message that begins at
`origin` and ends in front of `tail`.  The end must not part an angle bracket
from what makes it a tag. -/
structure Shadow (origin : Position) (tail : List Char) (c c' : Cursor) : Prop where
  rest : c.rest = c'.rest ++ tail
  position : ∃ text, c.position = origin.after text ∧ c'.position = Position.start.after text
  apart : c'.rest.getLast? = some '<' → tail.head?.any isTagStart = false

namespace Shadow

variable {origin : Position} {tail : List Char} {c c' d d' : Cursor}

theorem rebase (h : Shadow origin tail c c') : origin.rebase c.position = c'.position := by
  obtain ⟨text, hc, hc'⟩ := h.position
  rw [hc, hc', Position.rebase_after]

theorem map_since (h : Shadow origin tail c c') (hd : Shadow origin tail d d') :
    (d.since c.position).map origin.rebase = d'.since c'.position := by
  rw [Location.map, Cursor.since, Cursor.since, ← h.rebase, ← hd.rebase]

/-! ## Texts that are passed -/

/-- A text that is passed on both sides leads from shadow to shadow. -/
theorem of_passes {text : List Char} (h : Shadow origin tail c c') (hd : c.Passes text d)
    (hd' : c'.Passes text d') : Shadow origin tail d d' where
  rest := by
    have hrest := h.rest
    rw [hd.rest, hd'.rest, List.append_assoc] at hrest
    exact List.append_cancel_left hrest
  position := by
    obtain ⟨before, hc, hc'⟩ := h.position
    refine ⟨before ++ text, ?_, ?_⟩
    · rw [hd.position, hc, Position.after_append]
    · rw [hd'.position, hc', Position.after_append]
  apart hlast := by
    apply h.apart
    rw [hd'.rest, List.getLast?_append, hlast]
    rfl

/-- A text that ends within the part is passed by the shadow. -/
theorem passes {text : List Char} (h : Shadow origin tail c c') (hd : c.Passes text d)
    (hin : tail.length ≤ d.rest.length) : ∃ d', c'.Passes text d' ∧ Shadow origin tail d d' := by
  have hrest := hd.rest.symm.trans h.rest
  rw [List.append_eq_append_iff] at hrest
  have hstarts : ∃ rest, c'.rest = text ++ rest := by
    rcases hrest with ⟨rest, hrest, -⟩ | ⟨more, htext, htail⟩
    · exact ⟨rest, hrest⟩
    · have hnil : more = [] := by
        have hlength := congrArg List.length htail
        rw [List.length_append] at hlength
        exact List.length_eq_zero_iff.mp (by omega)
      exact ⟨[], by simp [htext, hnil]⟩
  obtain ⟨rest, hstarts⟩ := hstarts
  have hd' := passes_advance hstarts
  exact ⟨_, hd', h.of_passes hd hd'⟩

theorem advance (h : Shadow origin tail c c') {n : Nat} (hn : n ≤ c'.rest.length) :
    Shadow origin tail (c.advance n) (c'.advance n) := by
  have hlength : (c'.rest.take n).length = n := List.length_take_of_le hn
  have hd' := passes_advance (List.take_append_drop n c'.rest).symm
  have hd : c.Passes (c'.rest.take n) (c.advance (c'.rest.take n).length) := by
    apply passes_advance
    rw [← List.append_assoc, List.take_append_drop]
    exact h.rest
  rw [hlength] at hd hd'
  exact h.of_passes hd hd'

/-- Places in the part with the same text ahead are shadows. -/
theorem of_reaches (h : Shadow origin tail c c') (hd : c.Reaches d) (hd' : c'.Reaches d')
    (hrest : d.rest = d'.rest ++ tail) : Shadow origin tail d d' := by
  obtain ⟨text, htext⟩ := hd.passes
  obtain ⟨text', htext'⟩ := hd'.passes
  have hsame : text = text' := by
    have hboth := h.rest
    rw [htext.rest, htext'.rest, hrest, List.append_assoc] at hboth
    exact List.append_cancel_right hboth
  exact h.of_passes htext (hsame ▸ htext')

/-- What stands first in the part stands first in front of the shadow. -/
theorem rest_cons {ch : Char} {text : List Char} (h : Shadow origin tail c c')
    (hc : c.rest = ch :: text) (hin : tail.length < c.rest.length) :
    ∃ text', c'.rest = ch :: text' := by
  have hlength : tail.length ≤ c.bump.rest.length := by
    rw [hc] at hin
    rw [rest_bump_cons hc]
    exact Nat.le_of_lt_succ hin
  obtain ⟨d', hd', -⟩ := h.passes (passes_bump hc) hlength
  exact ⟨d'.rest, hd'.rest⟩

/-- Where a scalar of the part was passed, there was one. -/
theorem lt_of_bump {ch : Char} {text : List Char} {n : Nat} (hc : c.rest = ch :: text)
    (h : n ≤ c.bump.rest.length) : n < c.rest.length := by
  rw [rest_bump_cons hc] at h
  rw [hc]
  exact Nat.lt_succ_of_le h

theorem bump (h : Shadow origin tail c c') (hin : tail.length < c.rest.length) :
    Shadow origin tail c.bump c'.bump := by
  obtain ⟨ch, text, hc⟩ := List.exists_cons_of_ne_nil
    (List.ne_nil_of_length_pos (Nat.zero_lt_of_lt hin))
  obtain ⟨text', hc'⟩ := h.rest_cons hc hin
  exact h.of_passes (passes_bump hc) (passes_bump hc')

theorem skip? {text : List Char} (h : Shadow origin tail c c') (hd : c.skip? text = some d)
    (hin : tail.length ≤ d.rest.length) :
    ∃ d', c'.skip? text = some d' ∧ Shadow origin tail d d' := by
  obtain ⟨d', hd', hshadow⟩ := h.passes (.of_skip? hd) hin
  refine ⟨d', ?_, hshadow⟩
  rw [Cursor.skip?, if_pos (List.isPrefixOf_iff_prefix.mpr ⟨d'.rest, hd'.rest.symm⟩), hd'.stop]

/-- What is not found in the message is not found in the part. -/
theorem skip?_eq_none {text : List Char} (h : Shadow origin tail c c')
    (hd : c.skip? text = none) : c'.skip? text = none := by
  rw [Cursor.skip?, if_neg]
  intro hstarts
  have hmore : text.isPrefixOf c.rest = true := by
    rw [List.isPrefixOf_iff_prefix] at hstarts ⊢
    exact h.rest ▸ hstarts.trans (List.prefix_append _ _)
  rw [Cursor.skip?, if_pos hmore] at hd
  cases hd

theorem expect {text : List Char} {kind : ErrorKind} {location : Location}
    (h : Shadow origin tail c c') (hd : c.expect text kind location = .ok d)
    (hin : tail.length ≤ d.rest.length) (location' : Location) :
    ∃ d', c'.expect text kind location' = .ok d' ∧ Shadow origin tail d d' := by
  obtain ⟨d', hd', hshadow⟩ := h.passes (.of_expect hd) hin
  obtain ⟨e', he', hrest⟩ := expect_of_rest text kind location' hd'.rest
  exact ⟨e', he', h.of_reaches (.of_expect hd) (.of_expect he') (hrest ▸ hshadow.rest)⟩

theorem closeBrace {opening : Position} (h : Shadow origin tail c c')
    (hd : c.closeBrace opening = .ok d) (hin : tail.length ≤ d.rest.length)
    (opening' : Position) :
    ∃ d', c'.closeBrace opening' = .ok d' ∧ Shadow origin tail d d' :=
  h.expect hd hin _

/-! ## Runs of a class -/

theorem takeWhile_append_of_length_le {p : Char → Bool} {first second : List Char}
    (h : ((first ++ second).takeWhile p).length ≤ first.length) :
    (first ++ second).takeWhile p = first.takeWhile p := by
  induction first with
  | nil => simpa using h
  | cons c first ih =>
      rw [List.cons_append, List.takeWhile_cons] at h ⊢
      rw [List.takeWhile_cons]
      split
      · next hc =>
          rw [if_pos hc] at h
          rw [ih (Nat.le_of_succ_le_succ h)]
      · rfl

/-- A run that ends within the part is the same run in front of the shadow. -/
theorem takeWhile (h : Shadow origin tail c c') {p : Char → Bool}
    (hin : tail.length ≤ (c.advance (c.rest.takeWhile p).length).rest.length) :
    c'.rest.takeWhile p = c.rest.takeWhile p := by
  have hlength := (List.takeWhile_prefix p (l := c.rest)).length_le
  rw [h.rest]
  symm
  apply takeWhile_append_of_length_le
  rw [rest_advance, List.length_drop] at hin
  rw [h.rest, List.length_append] at hin hlength
  omega

theorem readWhile (h : Shadow origin tail c c') {p : Char → Bool}
    (hin : tail.length ≤ (c.readWhile p).2.rest.length) :
    (c'.readWhile p).1 = (c.readWhile p).1 ∧
      Shadow origin tail (c.readWhile p).2 (c'.readWhile p).2 := by
  have hrun := h.takeWhile hin
  have hpasses : c.Passes (c.rest.takeWhile p) (c.readWhile p).2 :=
    passes_advance List.takeWhile_append_dropWhile.symm
  have hpasses' : c'.Passes (c'.rest.takeWhile p) (c'.readWhile p).2 :=
    passes_advance List.takeWhile_append_dropWhile.symm
  exact ⟨hrun, h.of_passes hpasses (hrun ▸ hpasses')⟩

theorem skipSpace (h : Shadow origin tail c c') (hin : tail.length ≤ c.skipSpace.rest.length) :
    Shadow origin tail c.skipSpace c'.skipSpace :=
  (h.readWhile hin).2

theorem identifier (h : Shadow origin tail c c')
    (hin : tail.length ≤ c.identifier.2.rest.length) :
    c'.identifier.1 = c.identifier.1 ∧ Shadow origin tail c.identifier.2 c'.identifier.2 := by
  obtain ⟨hname, hshadow⟩ := h.readWhile hin
  exact ⟨congrArg String.ofList hname, hshadow⟩

/-- A tag name takes at least one scalar. -/
theorem lt_of_tagName {n : Nat} (hne : c.rest ≠ []) (h : n ≤ c.tagName.2.rest.length) :
    n < c.rest.length := by
  obtain ⟨ch, text, hc⟩ := List.exists_cons_of_ne_nil hne
  have hpasses := congrArg List.length (passes_tagName c).rest
  have hname : 0 < c.tagName.1.toList.length := by simp [Cursor.tagName, hc]
  rw [List.length_append] at hpasses
  omega

theorem tagName (h : Shadow origin tail c c') (hne : tail.length < c.rest.length)
    (hin : tail.length ≤ c.tagName.2.rest.length) :
    c'.tagName.1 = c.tagName.1 ∧ Shadow origin tail c.tagName.2 c'.tagName.2 := by
  obtain ⟨ch, text, hc⟩ := List.exists_cons_of_ne_nil
    (List.ne_nil_of_length_pos (Nat.zero_lt_of_lt hne))
  obtain ⟨text', hc'⟩ := h.rest_cons hc hne
  -- Behind its first scalar a name is a run of name characters.
  have hrun := (h.bump hne).readWhile (p := isTagNameChar) (by
    simpa [Cursor.tagName, Cursor.readWhile, hc, rest_bump_cons hc, Nat.sub_sub, Nat.add_comm]
      using hin)
  have hname : c'.tagName.1 = c.tagName.1 := by
    have hsame := hrun.1
    simp only [Cursor.readWhile, rest_bump_cons hc, rest_bump_cons hc'] at hsame
    simp [Cursor.tagName, hc, hc', hsame]
  exact ⟨hname, h.of_passes (passes_tagName c) (hname ▸ passes_tagName c')⟩

/-! ## Numerals and styles -/

theorem readInteger {absent excessive : ErrorKind} {n : Int} (h : Shadow origin tail c c')
    (hd : readInteger absent excessive c = .ok (n, d)) (hin : tail.length ≤ d.rest.length) :
    ∃ d', MessagePattern.readInteger absent excessive c' = .ok (n, d') ∧
      Shadow origin tail d d' := by
  have hstop := head?_of_readInteger hd
  obtain ⟨text, htext, hnumeral, rfl, hd'⟩ := readInteger_eq_ok hd
  obtain ⟨e, he, hshadow⟩ := h.passes ⟨htext, hd'⟩ hin
  have hstop' : e.rest.head?.any Char.isDigit = false := by
    rw [hshadow.rest] at hstop
    cases hrest : e.rest with
    | nil => rfl
    | cons ch rest => simpa [hrest] using hstop
  obtain ⟨f, hf, hrest⟩ := readInteger_of_rest absent excessive he.rest hnumeral hstop'
  exact ⟨f, hf, h.of_reaches (reaches_of_readInteger hd) (reaches_of_readInteger hf)
    (hrest ▸ hshadow.rest)⟩

theorem textSince (h : Shadow origin tail c c') (hd : Shadow origin tail d d')
    (hreaches : c'.Reaches d') : d.textSince c = d'.textSince c' := by
  have hle := hreaches.length_le
  have hlength : (c'.rest ++ tail).length - (d'.rest ++ tail).length =
      c'.rest.length - d'.rest.length := by
    rw [List.length_append, List.length_append]
    omega
  rw [Cursor.textSince, Cursor.textSince, h.rest, hd.rest, hlength,
    List.take_append_of_le_length (Nat.sub_le _ _)]

theorem readSelector {plural : Bool} {selector : String} (h : Shadow origin tail c c')
    (hd : readSelector plural c = .ok (some (selector, d))) (hin : tail.length ≤ d.rest.length) :
    ∃ d', MessagePattern.readSelector plural c' = .ok (some (selector, d')) ∧
      Shadow origin tail d d' := by
  have hword := h.identifier (hin.trans (reaches_identifier_of_readSelector hd).length_le)
  unfold MessagePattern.readSelector at hd ⊢
  simp only [hword.1] at hd ⊢
  split at hd
  · next hne =>
      cases hd
      exact ⟨_, by rw [if_pos hne], hword.2⟩
  next hempty =>
  rw [if_neg hempty]
  split at hd
  · next hplural =>
      rw [if_pos hplural]
      split at hd
      · cases hd
      · next equals hequals =>
          obtain ⟨⟨n, stop⟩, hstop, rest⟩ := bind_eq_ok hd
          cases rest
          obtain ⟨equals', hequals', hshadow⟩ :=
            h.skip? hequals (hin.trans (reaches_of_readInteger hstop).length_le)
          obtain ⟨stop', hstop', hshadow'⟩ := hshadow.readInteger hstop hin
          refine ⟨stop', ?_, hshadow'⟩
          have hreaches := (Passes.of_skip? hequals').reaches.trans
            (reaches_of_readInteger hstop')
          simp [hequals', hstop', bind, Except.bind, h.textSince hshadow' hreaches]
  · cases hd

theorem readOffset {plural : Bool} {offset : Int} (h : Shadow origin tail c c')
    (hword : tail.length ≤ c.identifier.2.rest.length)
    (hd : readOffset plural c = .ok (offset, d)) (hin : tail.length ≤ d.rest.length) :
    ∃ d', MessagePattern.readOffset plural c' = .ok (offset, d') ∧ Shadow origin tail d d' := by
  obtain ⟨hsame, hshadow⟩ := h.identifier hword
  unfold MessagePattern.readOffset at hd ⊢
  simp only [hsame] at hd ⊢
  split at hd
  · next hoffset =>
      rw [if_pos hoffset]
      obtain ⟨colon, hcolon, rest⟩ := bind_eq_ok hd
      obtain ⟨⟨n, stop⟩, hstop, rest⟩ := bind_eq_ok rest
      cases rest
      have hstopIn := hin.trans (reaches_skipSpace stop).length_le
      have hspaceIn := hstopIn.trans (reaches_of_readInteger hstop).length_le
      obtain ⟨colon', hcolon', hshadow⟩ := hshadow.expect hcolon
        (hspaceIn.trans (reaches_skipSpace colon).length_le) c'.identifier.2.here
      obtain ⟨stop', hstop', hshadow⟩ := (hshadow.skipSpace hspaceIn).readInteger hstop hstopIn
      refine ⟨stop'.skipSpace, ?_, hshadow.skipSpace hin⟩
      simp [hcolon', hstop', bind, Except.bind]
  · next hnone =>
      cases hd
      exact ⟨c', by rw [if_neg hnone], h⟩

theorem readStyle {text rest : List Char} {location : Location} (h : Shadow origin tail c c')
    (hd : readStyle c = .ok ((text, location), d)) (hclose : d.rest = '}' :: rest)
    (hin : tail.length < d.rest.length) :
    ∃ d', MessagePattern.readStyle c' = .ok ((text, location.map origin.rebase), d') ∧
      Shadow origin tail d d' := by
  obtain ⟨raw, hraw, rfl, hne, hmatch, hreaches⟩ := readStyle_eq_ok hd ⟨rest, hclose⟩
  obtain ⟨stop, hstop⟩ := hreaches.passes
  have hsame : stop = raw := List.append_cancel_right (hstop.rest.symm.trans hraw)
  obtain ⟨e, he, hshadow⟩ := h.passes (hsame ▸ hstop) (Nat.le_of_lt hin)
  obtain ⟨rest', hrest'⟩ := hshadow.rest_cons hclose hin
  obtain ⟨location', f, hf, hfrest⟩ := readStyle_of_rest (hrest' ▸ he.rest) hne hmatch
  obtain ⟨hfreaches, rfl⟩ := readStyle_located hf
  have hshadow' := h.of_reaches hreaches hfreaches (by rw [hfrest, ← hrest', hshadow.rest])
  refine ⟨f, ?_, hshadow'⟩
  rw [hf, (readStyle_located hd).2, h.map_since hshadow']

end Shadow

end MessagePattern
