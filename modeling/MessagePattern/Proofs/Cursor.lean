/-
# Where the cursor operations lead

Every operation of a cursor is `advance` by some number of scalars.  `Reaches`
says this once, without the number, and is all that is needed to see that
reading never goes back: the offset of a cursor that is reached is at least the
offset that one started from.

The second half says what each operation leaves to be read when the text in front
of the cursor is known.  These are the lemmas by which a text that was written
is followed scalar by scalar, so each gives the cursor as an existential and
keeps nothing of its position.
-/

import MessagePattern.Reader.Basic

namespace MessagePattern

theorem utf16Width_pos (c : Char) : 0 < utf16Width c := by
  unfold utf16Width
  split <;> decide

namespace Cursor

/-- The second cursor is met by reading on from the first. -/
def Reaches (c d : Cursor) : Prop := ∃ n, d = c.advance n

theorem Reaches.refl (c : Cursor) : c.Reaches c := ⟨0, rfl⟩

theorem Reaches.trans {c d e : Cursor} (first : c.Reaches d) (second : d.Reaches e) :
    c.Reaches e := by
  obtain ⟨m, rfl⟩ := first
  obtain ⟨n, rfl⟩ := second
  exact ⟨m + n, advance_advance m n c⟩

theorem reaches_advance (n : Nat) (c : Cursor) : c.Reaches (c.advance n) := ⟨n, rfl⟩

theorem reaches_bump (c : Cursor) : c.Reaches c.bump := ⟨1, rfl⟩

theorem reaches_skipSpace (c : Cursor) : c.Reaches c.skipSpace := reaches_advance _ c

theorem reaches_identifier (c : Cursor) : c.Reaches c.identifier.2 := reaches_advance _ c

theorem reaches_tagName (c : Cursor) : c.Reaches c.tagName.2 := reaches_advance _ c

/-- Skipping a text succeeds only where the message goes on with it. -/
theorem skip?_eq_some {text : List Char} {c d : Cursor} (h : c.skip? text = some d) :
    text <+: c.rest ∧ d = c.advance text.length := by
  unfold skip? at h
  split at h
  · next hstarts => exact ⟨List.isPrefixOf_iff_prefix.mp hstarts, (Option.some.inj h).symm⟩
  · cases h

/-- An expected text was there, and the cursor is behind it. -/
theorem expect_eq_ok {text : List Char} {c d : Cursor} {kind : ErrorKind} {location : Location}
    (h : c.expect text kind location = .ok d) :
    text <+: c.rest ∧ d = c.advance text.length := by
  unfold expect at h
  split at h
  · next found =>
      cases h
      exact skip?_eq_some found
  · cases h

theorem Reaches.of_expect {text : List Char} {c d : Cursor} {kind : ErrorKind}
    {location : Location} (h : c.expect text kind location = .ok d) : c.Reaches d :=
  ⟨_, (expect_eq_ok h).2⟩

theorem Reaches.of_closeBrace {c d : Cursor} {opening : Position}
    (h : c.closeBrace opening = .ok d) : c.Reaches d :=
  Reaches.of_expect h

/-- A scalar takes at least one code unit, so moving past one moves the offset. -/
theorem offset_lt_bump {c : Cursor} (h : c.rest ≠ []) :
    c.position.offset < c.bump.position.offset := by
  unfold bump
  split
  · next hnil => exact absurd hnil h
  · next ch rest hrest =>
      have hwidth := utf16Width_pos ch
      simp only [Position.next_offset]
      omega

theorem offset_le_bump (c : Cursor) : c.position.offset ≤ c.bump.position.offset := by
  by_cases h : c.rest = []
  · simp [bump, h]
  · exact Nat.le_of_lt (offset_lt_bump h)

/-- Reading on never lowers the offset. -/
theorem Reaches.offset_le {c d : Cursor} (h : c.Reaches d) :
    c.position.offset ≤ d.position.offset := by
  obtain ⟨n, rfl⟩ := h
  induction n generalizing c with
  | zero => exact Nat.le_refl _
  | succ n ih => exact Nat.le_trans c.offset_le_bump ih

theorem Reaches.length_le {c d : Cursor} (h : c.Reaches d) : d.rest.length ≤ c.rest.length := by
  obtain ⟨n, rfl⟩ := h
  rw [rest_advance, List.length_drop]
  exact Nat.sub_le _ n

/-- At the end of the message advancing does nothing. -/
theorem advance_of_rest_eq_nil {c : Cursor} (h : c.rest = []) (n : Nat) : c.advance n = c := by
  induction n with
  | zero => rfl
  | succ n ih =>
      have hbump : c.bump = c := by simp [bump, h]
      rw [advance_succ, hbump, ih]

/-- Advancing leads no further than to the end of the message. -/
theorem advance_min (c : Cursor) (n : Nat) : c.advance (min n c.rest.length) = c.advance n := by
  by_cases h : n ≤ c.rest.length
  · rw [Nat.min_eq_left h]
  · have hle : c.rest.length ≤ n := Nat.le_of_not_le h
    rw [Nat.min_eq_right hle, ← Nat.add_sub_cancel' hle, ← advance_advance]
    exact (advance_of_rest_eq_nil (by simp) _).symm

/-- The end of the message is reached from everywhere. -/
theorem reaches_end (c : Cursor) (n : Nat) : (c.advance n).Reaches (c.advance c.rest.length) := by
  refine ⟨c.rest.length - min n c.rest.length, ?_⟩
  rw [← advance_min c n, advance_advance, Nat.add_sub_cancel' (Nat.min_le_right _ _)]

/-! ## Texts that are passed -/

/-- The second cursor is met by reading exactly `text` from the first on. -/
structure Passes (c : Cursor) (text : List Char) (d : Cursor) : Prop where
  rest : c.rest = text ++ d.rest
  stop : d = c.advance text.length

theorem Passes.refl (c : Cursor) : c.Passes [] c := ⟨rfl, rfl⟩

theorem Passes.trans {c d e : Cursor} {first second : List Char} (h : c.Passes first d)
    (h' : d.Passes second e) : c.Passes (first ++ second) e where
  rest := by rw [h.rest, h'.rest, List.append_assoc]
  stop := by rw [h'.stop, h.stop, advance_advance, List.length_append]

theorem Passes.reaches {c d : Cursor} {text : List Char} (h : c.Passes text d) : c.Reaches d :=
  ⟨_, h.stop⟩

theorem passes_advance {text tail : List Char} {c : Cursor} (h : c.rest = text ++ tail) :
    c.Passes text (c.advance text.length) :=
  ⟨by rw [h, rest_advance, h, List.drop_left], rfl⟩

/-- Whatever is met by reading on is met behind some text. -/
theorem Reaches.passes {c d : Cursor} (h : c.Reaches d) : ∃ text, c.Passes text d := by
  obtain ⟨n, rfl⟩ := h
  refine ⟨c.rest.take n, ?_⟩
  have hpasses := passes_advance (List.take_append_drop n c.rest).symm
  rwa [List.length_take, advance_min] at hpasses

/-- The text since an earlier cursor is what was read in between. -/
theorem textSince_of_rest {text : List Char} {c d : Cursor} (h : c.rest = text ++ d.rest) :
    d.textSince c = text := by
  rw [textSince, h, List.length_append, Nat.add_sub_cancel, List.take_left]

theorem passes_bump {ch : Char} {tail : List Char} {c : Cursor} (h : c.rest = ch :: tail) :
    c.Passes [ch] c.bump :=
  @passes_advance [ch] tail c h

theorem passes_skipSpace (c : Cursor) :
    c.Passes (c.rest.takeWhile isPatternSpace) c.skipSpace :=
  passes_advance List.takeWhile_append_dropWhile.symm

theorem passes_identifier (c : Cursor) : c.Passes c.identifier.1.toList c.identifier.2 := by
  have hpasses := passes_advance (c := c)
    (List.takeWhile_append_dropWhile (p := isIdentifierChar)).symm
  simpa [identifier, readWhile] using hpasses

theorem passes_tagName (c : Cursor) : c.Passes c.tagName.1.toList c.tagName.2 := by
  have hsplit : c.rest = (c.rest.take 1 ++ (c.rest.drop 1).takeWhile isTagNameChar) ++
      (c.rest.drop 1).dropWhile isTagNameChar := by
    rw [List.append_assoc, List.takeWhile_append_dropWhile, List.take_append_drop]
  have hpasses := passes_advance hsplit
  simpa only [tagName, String.toList_ofList] using hpasses

theorem Passes.of_skip? {text : List Char} {c d : Cursor} (h : c.skip? text = some d) :
    c.Passes text d := by
  obtain ⟨⟨tail, htail⟩, rfl⟩ := skip?_eq_some h
  exact passes_advance htail.symm

theorem Passes.of_expect {text : List Char} {c d : Cursor} {kind : ErrorKind}
    {location : Location} (h : c.expect text kind location = .ok d) : c.Passes text d := by
  obtain ⟨⟨tail, htail⟩, rfl⟩ := expect_eq_ok h
  exact passes_advance htail.symm

theorem Passes.of_closeBrace {c d : Cursor} {opening : Position}
    (h : c.closeBrace opening = .ok d) : c.Passes ['}'] d :=
  Passes.of_expect h

/-! ## What is left behind a known text -/

theorem rest_advance_append {text tail : List Char} {c : Cursor} (h : c.rest = text ++ tail) :
    (c.advance text.length).rest = tail := by
  rw [rest_advance, h, List.drop_left]

theorem rest_bump_cons {ch : Char} {tail : List Char} {c : Cursor} (h : c.rest = ch :: tail) :
    c.bump.rest = tail := by
  rw [rest_bump, h, List.drop_one, List.tail_cons]

theorem skip?_of_rest (text : List Char) {tail : List Char} {c : Cursor}
    (h : c.rest = text ++ tail) :
    ∃ d, c.skip? text = some d ∧ d.rest = tail := by
  refine ⟨c.advance text.length, ?_, rest_advance_append h⟩
  rw [skip?, if_pos (List.isPrefixOf_iff_prefix.mpr ⟨tail, h.symm⟩)]

theorem skip?_eq_none_of_head {ch other : Char} {text tail : List Char} {c : Cursor}
    (h : c.rest = other :: tail) (hne : ch ≠ other) : c.skip? (ch :: text) = none := by
  rw [skip?, if_neg]
  rw [List.isPrefixOf_iff_prefix, h, List.cons_prefix_cons]
  exact fun hstarts => hne hstarts.1

theorem expect_of_rest (text : List Char) {tail : List Char} {c : Cursor} (kind : ErrorKind)
    (location : Location) (h : c.rest = text ++ tail) :
    ∃ d, c.expect text kind location = .ok d ∧ d.rest = tail := by
  obtain ⟨d, hskip, hrest⟩ := skip?_of_rest text h
  exact ⟨d, by rw [expect, hskip], hrest⟩

theorem expect_ne_ok_of_head {ch other : Char} {text tail : List Char} {c d : Cursor}
    {kind : ErrorKind} {location : Location} (h : c.rest = other :: tail) (hne : ch ≠ other) :
    c.expect (ch :: text) kind location ≠ .ok d := by
  intro hok
  obtain ⟨hstarts, -⟩ := expect_eq_ok hok
  rw [h, List.cons_prefix_cons] at hstarts
  exact hne hstarts.1

theorem closeBrace_of_rest {tail : List Char} {c : Cursor} (opening : Position)
    (h : c.rest = '}' :: tail) : ∃ d, c.closeBrace opening = .ok d ∧ d.rest = tail :=
  expect_of_rest ['}'] _ _ h

/-- A run of a class that ends within a text, or with it, does so whatever follows
that is not of the class. -/
theorem takeWhile_append_of_head {p : Char → Bool} (text : List Char) {tail : List Char}
    (h : tail.head?.any p = false) : (text ++ tail).takeWhile p = text.takeWhile p := by
  induction text with
  | nil =>
      cases tail with
      | nil => rfl
      | cons c tail => exact List.takeWhile_cons_of_neg (by simpa using h)
  | cons c text ih => simp only [List.cons_append, List.takeWhile_cons, ih]

theorem dropWhile_append_of_head {p : Char → Bool} (text : List Char) {tail : List Char}
    (h : tail.head?.any p = false) : (text ++ tail).dropWhile p = text.dropWhile p ++ tail := by
  induction text with
  | nil =>
      cases tail with
      | nil => rfl
      | cons c tail => exact List.dropWhile_cons_of_neg (by simpa using h)
  | cons c text ih =>
      simp only [List.cons_append, List.dropWhile_cons, ih]
      split <;> rfl

/-- A run of a class ends where the class does. -/
theorem takeWhile_append_of_stop {p : Char → Bool} {run tail : List Char} (hrun : run.all p)
    (hstop : tail.head?.any p = false) : (run ++ tail).takeWhile p = run := by
  have hnone : tail.takeWhile p = [] := takeWhile_append_of_head [] hstop
  rw [List.takeWhile_append_of_pos fun c hc => List.all_eq_true.mp hrun c hc, hnone,
    List.append_nil]

theorem dropWhile_append_of_stop {p : Char → Bool} {run tail : List Char} (hrun : run.all p)
    (hstop : tail.head?.any p = false) : (run ++ tail).dropWhile p = tail := by
  rw [List.dropWhile_append_of_pos fun c hc => List.all_eq_true.mp hrun c hc]
  exact dropWhile_append_of_head [] hstop

/-- Behind the longest run of a class stands nothing of the class. -/
theorem head?_dropWhile (p : Char → Bool) (text : List Char) :
    (text.dropWhile p).head?.any p = false := by
  cases hhead : (text.dropWhile p).head? with
  | none => rfl
  | some c => simpa [hhead] using List.head?_dropWhile_not p text

theorem rest_skipSpace (c : Cursor) : c.skipSpace.rest = c.rest.dropWhile isPatternSpace := by
  have split := List.takeWhile_append_dropWhile (p := isPatternSpace) (l := c.rest)
  exact rest_advance_append split.symm

/-- In front of no white space there is nothing to skip. -/
theorem skipSpace_eq_self {c : Cursor} (h : c.rest.head?.any isPatternSpace = false) :
    c.skipSpace = c := by
  have hrun : c.rest.takeWhile isPatternSpace = [] := by
    simpa using takeWhile_append_of_stop (List.all_nil (f := isPatternSpace)) h
  simp [skipSpace, readWhile, hrun]

theorem rest_skipSpace_of_space {tail : List Char} {c : Cursor} (h : c.rest = ' ' :: tail)
    (hstop : tail.head?.any isPatternSpace = false) : c.skipSpace.rest = tail := by
  have hspace : [' '].all isPatternSpace := by decide
  rw [rest_skipSpace, h]
  exact dropWhile_append_of_stop hspace hstop

theorem identifier_of_rest {name tail : List Char} {c : Cursor} (h : c.rest = name ++ tail)
    (hname : name.all isIdentifierChar) (hstop : tail.head?.any isIdentifierChar = false) :
    ∃ d, c.identifier = (String.ofList name, d) ∧ d.rest = tail := by
  refine ⟨c.advance name.length, ?_, rest_advance_append h⟩
  simp [identifier, readWhile, h, takeWhile_append_of_stop hname hstop]

/-- In front of no identifier character there is no name. -/
theorem identifier_eq_empty {c : Cursor} (h : c.rest.head?.any isIdentifierChar = false) :
    c.identifier.1 = "" := by
  have hrun : c.rest.takeWhile isIdentifierChar = [] := by
    simpa using takeWhile_append_of_stop (List.all_nil (f := isIdentifierChar)) h
  simp [identifier, readWhile, hrun]

theorem tagName_of_rest {letter : Char} {name tail : List Char} {c : Cursor}
    (h : c.rest = letter :: (name ++ tail)) (hname : name.all isTagNameChar)
    (hstop : tail.head?.any isTagNameChar = false) :
    ∃ d, c.tagName = (String.ofList (letter :: name), d) ∧ d.rest = tail := by
  refine ⟨c.advance (letter :: name).length, ?_, rest_advance_append h⟩
  simp [tagName, h, takeWhile_append_of_stop hname hstop]

end Cursor

end MessagePattern
