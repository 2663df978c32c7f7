/-
# Cursors after any history

The operations of a cursor say in bytes how far they go: the number of bytes of a text
that is skipped, of the text in front of what is looked for, or a number that the caller
gives.  They go there scalar by scalar, and code units, lines and columns are counted on
the way.  So whatever was done with a cursor, it stands between two scalars of the
message, its three counts are those of the same text, and neither the text ahead nor a
text since an earlier cursor cuts through a scalar.

A target that is no such point, or that lies behind the end, leads to the first point
that is not before it, or to the end.

Positions of a message are those of the library: a number of bytes together with the
fact that no scalar is cut there, which is what slicing asks for.
-/

import Mathlib.Data.Set.Operations
import MessagePattern.Proofs.Occurrences

namespace MessagePattern

namespace Cursor

/-! ## Targets in bytes -/

/-- A target is approached scalar by scalar while it is ahead. -/
theorem bumpTo_eq (target : Nat) (c : Cursor) :
    c.bumpTo target =
      if c.byteOffset < target ∧ c.rest ≠ [] then c.bump.bumpTo target else c := by
  cases hrest : c.rest with
  | nil => simp [bumpTo, hrest, scalarsFor]
  | cons ch text =>
      have hbump : c.bump = ⟨text, c.position.next ch, c.byteOffset + ch.utf8Size⟩ := by
        simp [bump, hrest]
      by_cases hahead : c.byteOffset < target
      · have hmore : target - c.byteOffset ≠ 0 := by omega
        simp [bumpTo, hrest, scalarsFor, hmore, hahead, hbump, Nat.sub_sub]
      · have hdone : target - c.byteOffset = 0 := by omega
        simp [bumpTo, hrest, scalarsFor, hdone, hahead]

/-- What every step towards a target keeps holds where the steps end, and there the target
or the end of the message is reached. -/
theorem bumpTo_induction (target : Nat) {P : Cursor → Prop}
    (step : ∀ c : Cursor, c.byteOffset < target → c.rest ≠ [] → P c → P c.bump) {c : Cursor}
    (h : P c) :
    P (c.bumpTo target) ∧
      (target ≤ (c.bumpTo target).byteOffset ∨ (c.bumpTo target).rest = []) := by
  induction hlength : c.rest.length generalizing c with
  | zero =>
      have hrest := List.length_eq_zero_iff.mp hlength
      rw [bumpTo_eq, if_neg (fun hahead => hahead.2 hrest)]
      exact ⟨h, .inr hrest⟩
  | succ n ih =>
      rw [bumpTo_eq]
      split
      · next hahead =>
          refine ih (step c hahead.1 hahead.2 h) ?_
          rw [rest_bump, List.length_drop, hlength, Nat.add_sub_cancel]
      · next hstop =>
          refine ⟨h, ?_⟩
          rw [not_and_or, not_lt, ne_eq, not_not] at hstop
          exact hstop

theorem reaches_bumpTo (target : Nat) (c : Cursor) : c.Reaches (c.bumpTo target) :=
  reaches_advance _ c

/-- The bytes of a text that stands ahead lead right behind it. -/
theorem Passes.bumpTo_eq {c d : Cursor} {text : List Char} (h : c.Passes text d) :
    c.bumpTo (c.byteOffset + utf8Length text) = d := by
  obtain ⟨hrest, rfl⟩ := h
  generalize (c.advance text.length).rest = tail at hrest
  induction text generalizing c with
  | nil =>
      rw [Cursor.bumpTo_eq, if_neg (fun hahead => Nat.lt_irrefl _ hahead.1)]
      rfl
  | cons ch text ih =>
      have hbump := (passes_bump hrest).byteOffset
      have hpos := ch.utf8Size_pos
      have hahead : c.byteOffset < c.byteOffset + utf8Length (ch :: text) ∧ c.rest ≠ [] := by
        rw [utf8Length_cons, hrest]
        exact ⟨by omega, List.cons_ne_nil _ _⟩
      have htarget : c.byteOffset + utf8Length (ch :: text) =
          c.bump.byteOffset + utf8Length text := by
        rw [hbump, utf8Length_cons, Nat.add_assoc]
        rfl
      rw [Cursor.bumpTo_eq, if_pos hahead, htarget, ih (rest_bump_cons hrest), List.length_cons,
        advance_succ]

/-! ## Positions of the message -/

/-- The cursor stands at a position of the message.  Its byte offset is that of the
position, its other counts are those of the text before the position, and what it has yet
to read is the text from there on. -/
structure StandsAt {message : String} (c : Cursor) (p : message.Pos) : Prop where
  byteOffset : c.byteOffset = p.offset.byteIdx
  position : c.position = .behind (message.sliceTo p).copy.toList
  rest : c.rest = (message.sliceFrom p).copy.toList

section Positions

variable {message : String} {before : List Char} {c d : Cursor}

/-- The bytes of what was read from the start are counted. -/
theorem Passes.byteOffset_eq {text : List Char} (h : (start text).Passes before c) :
    c.byteOffset = utf8Length before := by
  rw [h.byteOffset]
  exact Nat.zero_add _

/-- Behind each text that was read from the start there is a position of the message. -/
theorem Passes.exists_splits (h : (start message.toList).Passes before c) :
    ∃ p : message.Pos, p.Splits (String.ofList before) (String.ofList c.rest) := by
  have hmessage : message = String.ofList before ++ String.ofList c.rest := by
    rw [← String.ofList_append, ← h.rest]
    exact String.ofList_toList.symm
  refine ⟨⟨(String.ofList before).rawEndPos, ?_⟩, hmessage, rfl⟩
  exact String.Pos.Raw.isValid_iff_exists_append.mpr ⟨_, _, hmessage, rfl⟩

theorem Passes.standsAt (h : (start message.toList).Passes before c) {p : message.Pos}
    (hp : p.Splits (String.ofList before) (String.ofList c.rest)) : c.StandsAt p where
  byteOffset := by
    rw [h.byteOffset_eq, hp.offset_eq_rawEndPos, String.byteIdx_rawEndPos,
      ← utf8Length_eq_utf8ByteSize]
  position := by
    rw [h.position, hp.copy_sliceTo_eq, String.toList_ofList]
    exact Position.behind_after [] before
  rest := by rw [hp.copy_sliceFrom_eq, String.toList_ofList]

theorem Reaches.exists_standsAt (h : (start message.toList).Reaches c) :
    ∃ p : message.Pos, c.StandsAt p := by
  obtain ⟨before, hpasses⟩ := h.passes
  obtain ⟨p, hp⟩ := hpasses.exists_splits
  exact ⟨p, hpasses.standsAt hp⟩

/-- The bytes up to the cursor and those ahead of it are those of the message. -/
theorem Reaches.byteOffset_add (h : (start message.toList).Reaches c) :
    c.byteOffset + utf8Length c.rest = message.utf8ByteSize := by
  obtain ⟨before, hpasses⟩ := h.passes
  have hmessage : message.toList = before ++ c.rest := hpasses.rest
  rw [hpasses.byteOffset_eq, ← utf8Length_append, ← hmessage, utf8Length_eq_utf8ByteSize,
    String.ofList_toList]

/-- A string that lies between two positions is cut out by them. -/
theorem extract_of_splits {first text last : String} {p q : message.Pos}
    (hp : p.Splits first (text ++ last)) (hq : q.Splits (first ++ text) last) :
    String.extract p q = text := by
  have hbytes := congrArg String.toByteArray hq.eq_append
  simp only [String.toByteArray_append] at hbytes
  rw [← String.toByteArray_inj, String.toByteArray_extract, hp.offset_eq_rawEndPos,
    hq.offset_eq_rawEndPos, hbytes, ByteArray.extract_append, ByteArray.extract_append_eq_right]
  · simp
  · simp
  · simp

/-- What is cut out of the message between two cursors is what was read in between. -/
theorem exists_slice (hc : (start message.toList).Reaches c) (hd : c.Reaches d) :
    ∃ p q : message.Pos, c.StandsAt p ∧ d.StandsAt q ∧ p ≤ q ∧
      String.extract p q = String.ofList (d.textSince c) := by
  obtain ⟨before, hbefore⟩ := hc.passes
  obtain ⟨text, htext⟩ := hd.passes
  have hboth := hbefore.trans htext
  obtain ⟨p, hp⟩ := hbefore.exists_splits
  obtain ⟨q, hq⟩ := hboth.exists_splits
  have hp' : p.Splits (String.ofList before) (String.ofList text ++ String.ofList d.rest) := by
    rwa [htext.rest, String.ofList_append] at hp
  have hq' : q.Splits (String.ofList before ++ String.ofList text) (String.ofList d.rest) := by
    rwa [String.ofList_append] at hq
  refine ⟨p, q, hbefore.standsAt hp, hboth.standsAt hq, ?_, ?_⟩
  · rw [hp'.le_iff_exists_eq_append hq']
    exact ⟨String.ofList text, rfl, rfl⟩
  · rw [extract_of_splits hp' hq', textSince_of_rest htext.rest]

/-! ## Where a target leads -/

/-- A step towards a later position does not lead past it. -/
theorem Reaches.byteOffset_bump_le (h : (start message.toList).Reaches c) {r : message.Pos}
    (hlt : c.byteOffset < r.offset.byteIdx) : c.bump.byteOffset ≤ r.offset.byteIdx := by
  obtain ⟨before, hpasses⟩ := h.passes
  have hbytes := hpasses.byteOffset_eq
  obtain ⟨first, last, hmessage, hr⟩ := String.Pos.Raw.isValid_iff_exists_append.mp r.isValid
  have hsize : r.offset.byteIdx = utf8Length first.toList := by
    rw [hr, String.byteIdx_rawEndPos, utf8Length_eq_utf8ByteSize, String.ofList_toList]
  have hsplit : first.toList ++ last.toList = before ++ c.rest := by
    rw [← String.toList_append, ← hmessage]
    exact hpasses.rest
  rw [hsize] at hlt ⊢
  rcases List.append_eq_append_iff.mp hsplit with ⟨more, rfl, -⟩ | ⟨more, hfirst, hmore⟩
  · rw [utf8Length_append] at hbytes
    omega
  · rw [hfirst, utf8Length_append] at hlt ⊢
    cases more with
    | nil =>
        rw [hbytes] at hlt
        exact absurd hlt (Nat.lt_irrefl _)
    | cons ch more =>
        have hbump := (passes_bump hmore).byteOffset
        rw [utf8Length_cons] at hbump ⊢
        have hnil : utf8Length [] = 0 := rfl
        omega

theorem Reaches.le_byteOffset_bumpTo (h : (start message.toList).Reaches c) (target : Nat) :
    min target message.utf8ByteSize ≤ (c.bumpTo target).byteOffset := by
  obtain ⟨hreaches, hstop⟩ := bumpTo_induction target (P := (start message.toList).Reaches)
    (fun d _ _ hd => hd.trans (reaches_bump d)) h
  have hbytes := hreaches.byteOffset_add
  rcases hstop with harrived | hend
  · exact (Nat.min_le_left _ _).trans harrived
  · rw [hend] at hbytes
    exact (Nat.min_le_right _ _).trans hbytes.ge

-- As long as there are steps the cursor stands before `r`, so no step leads past it.
theorem Reaches.byteOffset_bumpTo_le (h : (start message.toList).Reaches c) {target : Nat}
    {r : message.Pos} (hle : c.byteOffset ≤ r.offset.byteIdx)
    (hr : min target message.utf8ByteSize ≤ r.offset.byteIdx) :
    (c.bumpTo target).byteOffset ≤ r.offset.byteIdx := by
  have hinvariant : ∀ d : Cursor, d.byteOffset < target → d.rest ≠ [] →
      (start message.toList).Reaches d ∧ d.byteOffset ≤ r.offset.byteIdx →
      (start message.toList).Reaches d.bump ∧ d.bump.byteOffset ≤ r.offset.byteIdx := by
    intro d hbefore hrest hd
    have hbytes := hd.1.byteOffset_add
    have hpos := utf8Length_pos hrest
    exact ⟨hd.1.trans (reaches_bump d), hd.1.byteOffset_bump_le (by omega)⟩
  exact (bumpTo_induction target hinvariant ⟨h, hle⟩).1.2

/-- A target that is not behind the cursor leads to the first position of the message that
is not before it, or to the end of the message. -/
theorem exists_isLeast_bumpTo (h : (start message.toList).Reaches c) {target : Nat}
    (htarget : c.byteOffset ≤ target) :
    ∃ q : message.Pos, (c.bumpTo target).StandsAt q ∧
      IsLeast {r : message.Pos | min target message.utf8ByteSize ≤ r.offset.byteIdx} q := by
  obtain ⟨q, hq⟩ := (h.trans (reaches_bumpTo target c)).exists_standsAt
  refine ⟨q, hq, ?_, fun r hr => ?_⟩
  · rw [Set.mem_ofPred_eq, ← hq.byteOffset]
    exact h.le_byteOffset_bumpTo target
  · rw [Set.mem_ofPred_eq] at hr
    have hbytes := h.byteOffset_add
    rw [String.Pos.le_iff, String.Pos.Raw.le_iff, ← hq.byteOffset]
    exact h.byteOffset_bumpTo_le (by omega) hr

end Positions

/-! ## Histories -/

/-- One operation on a cursor. -/
inductive Operation
  | bump
  | skip (text : List Char)
  | seek (pattern : List Char)
  | skipSpace
  | bumpTo (target : Nat)

/-- Where an operation leads.  A text that is not there is not skipped, and a target that
is behind the cursor leaves it where it is. -/
def Operation.apply : Operation → Cursor → Cursor
  | .bump, c => c.bump
  | .skip text, c => (c.skip? text).getD c
  | .seek pattern, c => (c.seek pattern).2
  | .skipSpace, c => c.skipSpace
  | .bumpTo target, c => c.bumpTo target

/-- Where a whole sequence of operations leads. -/
def follow (c : Cursor) (operations : List Operation) : Cursor :=
  operations.foldl (fun c operation => operation.apply c) c

theorem reaches_seek (pattern : List Char) (c : Cursor) : c.Reaches (c.seek pattern).2 := by
  unfold seek
  split <;> exact reaches_advance _ c

theorem Operation.reaches (operation : Operation) (c : Cursor) :
    c.Reaches (operation.apply c) := by
  cases operation with
  | bump => exact reaches_bump c
  | skip text =>
      cases hskip : c.skip? text with
      | none => simpa [apply, hskip] using Reaches.refl c
      | some d => simpa [apply, hskip] using (Passes.of_skip? hskip).reaches
  | seek pattern => exact reaches_seek pattern c
  | skipSpace => exact reaches_skipSpace c
  | bumpTo target => exact reaches_bumpTo target c

/-- No sequence of operations does anything but read on. -/
theorem reaches_follow (c : Cursor) (operations : List Operation) :
    c.Reaches (c.follow operations) := by
  induction operations generalizing c with
  | nil => exact Reaches.refl c
  | cons operation operations ih => exact (operation.reaches c).trans (ih _)

/-! ## What the operations consume -/

/-- The second cursor stands behind `text`, read from the first on, and the bytes of the
text are the target that leads there. -/
structure Consumes (c : Cursor) (text : List Char) (d : Cursor) : Prop where
  rest : c.rest = text ++ d.rest
  byteOffset : d.byteOffset = c.byteOffset + utf8Length text
  position : d.position = c.position.after text
  target : d = c.bumpTo (c.byteOffset + utf8Length text)

theorem Passes.consumes {c d : Cursor} {text : List Char} (h : c.Passes text d) :
    c.Consumes text d :=
  ⟨h.rest, h.byteOffset, h.position, h.bumpTo_eq.symm⟩

/-- A text is skipped exactly if the message goes on with it, in bytes or in scalars, and
then nothing else is. -/
structure SkipsExactly (c : Cursor) (text : List Char) : Prop where
  found : (c.skip? text).isSome ↔ text <+: c.rest
  bytes : text <+: c.rest ↔ utf8Bytes text <+: utf8Bytes c.rest
  consumes : ∀ d, c.skip? text = some d → c.Consumes text d

theorem skipsExactly (c : Cursor) (text : List Char) : c.SkipsExactly text where
  found := by
    rw [← List.isPrefixOf_iff_prefix, skip?]
    split
    · next hstarts => exact iff_of_true rfl hstarts
    · next hstarts => exact iff_of_false Bool.false_ne_true hstarts
  bytes := utf8Bytes_prefix_iff.symm
  consumes _ hskip := (Passes.of_skip? hskip).consumes

/-- Looking for a pattern stops in front of its first occurrence, which is the first one in
bytes as in scalars, and goes to the end of the message if there is none. -/
structure SeeksFirst (message : String) (c : Cursor) (pattern : List Char) : Prop where
  found : (c.seek pattern).1 = true ↔ pattern <:+: c.rest
  first : pattern <:+: c.rest → ∃ before, c.Consumes before (c.seek pattern).2 ∧
    pattern <+: (c.seek pattern).2.rest ∧
    IsLeast (occurrences pattern c.rest) before.length ∧
    IsLeast (occurrences (utf8Bytes pattern) (utf8Bytes c.rest)) (utf8Length before)
  missing : ¬ pattern <:+: c.rest → c.Consumes c.rest (c.seek pattern).2 ∧
    (c.seek pattern).2 = c.bumpTo message.utf8ByteSize
  /-- The empty pattern is left out here: it occurs at the end as well. -/
  atEnd : pattern ≠ [] → ((c.seek pattern).2.rest = [] ↔ ¬ pattern <:+: c.rest)

section Seek

variable {message : String} {c : Cursor} {pattern : List Char}

theorem seeksFirst_of_some {n : Nat} (h : distance? pattern c.rest = some n) :
    c.SeeksFirst message pattern := by
  have hfirst := isLeast_of_distance?_eq_some h
  have hinfix : pattern <:+: c.rest := nonempty_occurrences_iff.mp ⟨n, hfirst.1⟩
  have hseek : c.seek pattern = (true, c.advance n) := by rw [seek, h]
  obtain ⟨before, after, hrest, rfl⟩ := hfirst.1
  have hbehind := rest_advance_append hrest
  have hbytes : IsLeast (occurrences (utf8Bytes pattern) (utf8Bytes c.rest))
      (utf8Length before) := by
    rw [hrest] at hfirst ⊢
    exact isLeast_occurrences_utf8Bytes hfirst
  exact {
    found := iff_of_true (by rw [hseek]) hinfix
    first := fun _ => by
      rw [hseek]
      exact ⟨before, (passes_advance hrest).consumes, ⟨after, hbehind.symm⟩, hfirst, hbytes⟩
    missing := fun hnone => absurd hinfix hnone
    atEnd := fun hpattern => by
      rw [hseek, hbehind]
      exact iff_of_false (fun hend => hpattern (List.append_eq_nil_iff.mp hend).1)
        (not_not_intro hinfix) }

theorem seeksFirst_of_none (hc : (start message.toList).Reaches c)
    (h : distance? pattern c.rest = none) : c.SeeksFirst message pattern := by
  have hnone := not_infix_of_distance?_eq_none h
  have hseek : c.seek pattern = (false, c.advance c.rest.length) := by rw [seek, h]
  have hpasses := passes_advance (List.append_nil c.rest).symm
  exact {
    found := iff_of_false (by rw [hseek]; exact Bool.false_ne_true) hnone
    first := fun hinfix => absurd hinfix hnone
    missing := fun _ => by
      rw [hseek, ← hc.byteOffset_add]
      exact ⟨hpasses.consumes, hpasses.bumpTo_eq.symm⟩
    atEnd := fun _ => iff_of_true (by rw [hseek, rest_advance, List.drop_length]) hnone }

theorem seeksFirst (h : (start message.toList).Reaches c) (pattern : List Char) :
    c.SeeksFirst message pattern := by
  cases hfound : distance? pattern c.rest with
  | some n => exact seeksFirst_of_some hfound
  | none => exact seeksFirst_of_none h hfound

end Seek

/-! ## Any history -/

/-- What is known of two cursors of a message, the second of which was met from the
first. -/
structure KeepsPlace (message : String) (c d : Cursor) : Prop where
  /-- Both stand at positions of the message, and what is cut out between these is the text
  that was read in between. -/
  slice : ∃ p q : message.Pos, c.StandsAt p ∧ d.StandsAt q ∧ p ≤ q ∧
    String.extract p q = String.ofList (d.textSince c)
  forward : c.byteOffset ≤ d.byteOffset
  bounded : d.byteOffset ≤ message.utf8ByteSize
  skips : ∀ text, d.SkipsExactly text
  seeks : ∀ pattern, d.SeeksFirst message pattern
  /-- A target inside a scalar leads behind the scalar, and one behind the end to the
  end. -/
  lands : ∀ target, d.byteOffset ≤ target → ∃ q : message.Pos, (d.bumpTo target).StandsAt q ∧
    IsLeast {r : message.Pos | min target message.utf8ByteSize ≤ r.offset.byteIdx} q

/-- After any operations on the cursor of a message, and any more operations after them,
the cursor stands between two scalars of the message, no further back than before.  All of
its counts are those of the text that it has read, and what it does next is done from
there. -/
theorem keepsPlace_follow (message : String) (earlier later : List Operation) :
    ((start message.toList).follow earlier).KeepsPlace message
      (((start message.toList).follow earlier).follow later) := by
  have hc := reaches_follow (start message.toList) earlier
  have hlater := reaches_follow ((start message.toList).follow earlier) later
  have hd := hc.trans hlater
  obtain ⟨text, htext⟩ := hlater.passes
  exact {
    slice := exists_slice hc hlater
    forward := htext.byteOffset ▸ Nat.le_add_right _ _
    bounded := hd.byteOffset_add ▸ Nat.le_add_right _ _
    skips := skipsExactly _
    seeks := seeksFirst hd
    lands := fun _ htarget => exists_isLeast_bumpTo hd htarget }

/-- The target 3 lies inside the second scalar, which takes the bytes 2 to 5, so the cursor
stops behind it, at byte 6 and code unit 3.  The line feed and `x` are still ahead. -/
theorem keepsPlace_follow_inside_scalar :
    ∃ c d : Cursor, c = (start "é😀\nx".toList).follow [.bump] ∧
      d = c.follow [.bumpTo 3, .skip ['y']] ∧ d.byteOffset = 6 ∧ d.position = ⟨3, 1, 3⟩ ∧
      d.textSince c = ['😀'] ∧ (d.seek ['x']).2.position = ⟨4, 2, 1⟩ ∧
      c.KeepsPlace "é😀\nx" d :=
  ⟨_, _, rfl, rfl, rfl, rfl, rfl, rfl, keepsPlace_follow "é😀\nx" [.bump] [.bumpTo 3, .skip ['y']]⟩

end Cursor

end MessagePattern
