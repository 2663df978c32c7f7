/-
# Locations in bytes

Locations count UTF-16 code units, and a tool that points into the text asks for bytes.
The points between the scalars of a message are the only places where both counts make
sense.  A code-unit offset is taken to the first of these points that is not before it,
or to the end of the message, so the bytes that are reported are whole scalars of the
message whatever the location is.

The locations of errors that reading gives begin and end at such points.  For them
nothing is rounded: the bytes that are reported hold the text of the location.
-/

import Mathlib.Order.Bounds.Defs
import MessagePattern.Proofs.FaultKinds
import MessagePattern.Proofs.Tiling

namespace MessagePattern

/-! ## Points between scalars -/

/-- The points between the scalars of a message, its ends included, with at least `units`
code units before them.  A point is given by the number of bytes before it. -/
def boundariesFrom (message : String) (units : Nat) : Set Nat :=
  {n | ∃ before after : String, message = before ++ after ∧ n = before.utf8ByteSize ∧
    units ≤ utf16Length before.toList}

/-- `n` is the first point between scalars with at least `units` code units before it, or
the end of the message if there is no such point. -/
def IsRoundedUp (message : String) (units n : Nat) : Prop :=
  IsLeast (boundariesFrom message units) n ∨
    boundariesFrom message units = ∅ ∧ n = message.utf8ByteSize

theorem mem_boundariesFrom {text : List Char} {units n : Nat} :
    n ∈ boundariesFrom (String.ofList text) units ↔
      ∃ before after, text = before ++ after ∧ n = utf8Length before ∧
        units ≤ utf16Length before := by
  constructor
  · rintro ⟨before, after, hmessage, rfl, hunits⟩
    refine ⟨before.toList, after.toList, ?_, ?_, hunits⟩
    · simpa using congrArg String.toList hmessage
    · rw [utf8Length_eq_utf8ByteSize, String.ofList_toList]
  · rintro ⟨before, after, rfl, rfl, hunits⟩
    refine ⟨String.ofList before, String.ofList after, ?_, ?_, by simpa using hunits⟩
    · rw [String.ofList_append]
    · rw [utf8Length_eq_utf8ByteSize]

/-- The conversion stops behind some beginning of the text, and at the end only if it has
to. -/
theorem exists_byteOffset_eq (units : Nat) (text : List Char) :
    ∃ before after, text = before ++ after ∧ byteOffset units text = utf8Length before ∧
      (units ≤ utf16Length before ∨ after = []) := by
  induction text generalizing units with
  | nil => exact ⟨[], [], rfl, rfl, .inr rfl⟩
  | cons c text ih =>
      by_cases hzero : units = 0
      · exact ⟨[], c :: text, rfl, by simp [byteOffset, utf8Length, hzero], .inl (by omega)⟩
      · obtain ⟨before, after, rfl, hbytes, hstop⟩ := ih (units - utf16Width c)
        refine ⟨c :: before, after, rfl, ?_, hstop.imp_left fun hunits => ?_⟩
        · rw [byteOffset, if_neg hzero, hbytes, Nat.add_comm, utf8Length_cons]
        · rw [utf16Length_cons]
          omega

/-- No point that has enough code units before it is passed. -/
theorem byteOffset_le {units : Nat} {before after : List Char}
    (h : units ≤ utf16Length before) : byteOffset units (before ++ after) ≤ utf8Length before := by
  induction before generalizing units with
  | nil =>
      have hzero : units = 0 := Nat.le_zero.mp h
      cases after <;> simp [byteOffset, hzero]
  | cons c before ih =>
      rw [utf16Length_cons] at h
      rw [List.cons_append, byteOffset, utf8Length_cons]
      split
      · exact Nat.zero_le _
      · have hle := @ih (units - utf16Width c) (by omega)
        omega

theorem isRoundedUp_byteOffset (message : String) (units : Nat) :
    IsRoundedUp message units (byteOffset units message.toList) := by
  obtain ⟨text, rfl⟩ : ∃ text, message = String.ofList text :=
    ⟨message.toList, String.ofList_toList.symm⟩
  rw [String.toList_ofList]
  have hlower : ∀ n ∈ boundariesFrom (String.ofList text) units, byteOffset units text ≤ n := by
    intro n hn
    obtain ⟨before, after, rfl, rfl, hunits⟩ := mem_boundariesFrom.mp hn
    exact byteOffset_le hunits
  obtain ⟨before, after, htext, hbytes, hstop⟩ := exists_byteOffset_eq units text
  by_cases hunits : units ≤ utf16Length before
  · exact .inl ⟨mem_boundariesFrom.mpr ⟨before, after, htext, hbytes, hunits⟩, hlower⟩
  · obtain rfl := hstop.resolve_left hunits
    rw [List.append_nil] at htext
    refine .inr ⟨Set.eq_empty_iff_forall_notMem.mpr fun n hn => hunits ?_, ?_⟩
    · obtain ⟨first, second, hsplit, -, hfirst⟩ := mem_boundariesFrom.mp hn
      rw [← htext, hsplit, utf16Length_append]
      exact Nat.le_add_right_of_le hfirst
    · rw [hbytes, htext, utf8Length_eq_utf8ByteSize]

/-- The end that is chosen is a point between scalars in any case. -/
theorem IsRoundedUp.isValid {message : String} {units n : Nat} (h : IsRoundedUp message units n) :
    String.Pos.Raw.IsValid message ⟨n⟩ := by
  rw [String.Pos.Raw.isValid_iff_exists_append]
  rcases h with ⟨⟨before, after, hmessage, rfl, -⟩, -⟩ | ⟨-, rfl⟩
  · exact ⟨before, after, hmessage, rfl⟩
  · exact ⟨message, "", (String.append_empty).symm, rfl⟩

/-- The conversion is exact at a point between scalars. -/
theorem byteOffset_utf16Length (before after : List Char) :
    byteOffset (utf16Length before) (before ++ after) = utf8Length before := by
  induction before with
  | nil => cases after <;> simp [byteOffset, utf16Length, utf8Length]
  | cons c before ih =>
      have hpos := utf16Width_pos c
      have hlength := utf16Length_cons c before
      rw [List.cons_append, byteOffset, if_neg (by omega), hlength, Nat.add_sub_cancel_left, ih,
        utf8Length_cons, Nat.add_comm]

/-! ## Spans -/

/-- A span of bytes is a part of the message and does not cut through a scalar. -/
structure ByteSpan.IsSafe (message : String) (s : ByteSpan) : Prop where
  start : String.Pos.Raw.IsValid message ⟨s.offset⟩
  stop : String.Pos.Raw.IsValid message ⟨s.offset + s.length⟩
  bounded : s.offset + s.length ≤ message.utf8ByteSize

/-- The ends of a span are those of a location, rounded up.  A location whose end comes
before its start has an empty span. -/
structure ByteSpan.Rounds (message : String) (l : Location) (s : ByteSpan) : Prop where
  start : IsRoundedUp message l.start.offset s.offset
  stop : ∃ n, IsRoundedUp message l.stop.offset n ∧ s.offset + s.length = max s.offset n

/-- The bytes of a span are the code units of a location. -/
def ByteSpan.IsExact (message : String) (l : Location) (s : ByteSpan) : Prop :=
  ∃ before text after : String, message = before ++ text ++ after ∧
    s.offset = before.utf8ByteSize ∧ s.length = text.utf8ByteSize ∧
    utf16Length before.toList = l.start.offset ∧ l.start.offset ≤ l.stop.offset ∧
    utf16Length text.toList = l.stop.offset - l.start.offset

theorem byteSpan_rounds (e : ParseError) : e.byteSpan.Rounds e.message e.location where
  start := isRoundedUp_byteOffset _ _
  stop := ⟨_, isRoundedUp_byteOffset _ _, by simp only [ParseError.byteSpan]; omega⟩

theorem ByteSpan.Rounds.isSafe {message : String} {l : Location} {s : ByteSpan}
    (h : s.Rounds message l) : s.IsSafe message := by
  have hstop : String.Pos.Raw.IsValid message ⟨s.offset + s.length⟩ := by
    obtain ⟨n, hn, hmax⟩ := h.stop
    rw [hmax]
    rcases Nat.le_total n s.offset with hle | hle
    · rw [Nat.max_eq_left hle]
      exact h.start.isValid
    · rw [Nat.max_eq_right hle]
      exact hn.isValid
  exact ⟨h.start.isValid, hstop, hstop.le_rawEndPos⟩

/-- An error that is located at a part of its message reports the bytes of that part. -/
theorem byteSpan_isExact {e : ParseError} (h : e.location.Within e.message.toList) :
    e.byteSpan.IsExact e.message e.location := by
  obtain ⟨text, before, after, hmessage, hstart, hstop⟩ := h.spans
  have hstartOffset : e.location.start.offset = utf16Length before := by rw [hstart]; rfl
  have hstopOffset : e.location.stop.offset = utf16Length (before ++ text) := by rw [hstop]; rfl
  have hfirst : byteOffset e.location.start.offset e.message.toList = utf8Length before := by
    rw [hstartOffset, hmessage, byteOffset_utf16Length]
  have hsecond : byteOffset e.location.stop.offset e.message.toList =
      utf8Length (before ++ text) := by
    rw [hstopOffset, hmessage, ← List.append_assoc, byteOffset_utf16Length]
  refine ⟨String.ofList before, String.ofList text, String.ofList after, ?_, ?_, ?_, ?_,
    h.ordered, ?_⟩
  · rw [← String.ofList_append, ← String.ofList_append, List.append_assoc, ← hmessage,
      String.ofList_toList]
  · rw [← utf8Length_eq_utf8ByteSize, ParseError.byteSpan, hfirst]
  · rw [← utf8Length_eq_utf8ByteSize, ParseError.byteSpan, hfirst, hsecond, utf8Length_append,
      Nat.add_sub_cancel_left]
  · rw [String.toList_ofList, hstartOffset]
  · rw [String.toList_ofList, hstartOffset, hstopOffset, utf16Length_append,
      Nat.add_sub_cancel_left]

/-- Whatever the location of an error is, its span is a part of the message between two
scalars, and its ends are the first points between scalars that are not before those of
the location.  The error of a message that cannot be read reports exactly the text that
it is located at. -/
theorem byteSpan_safe_and_exact :
    (∀ e : ParseError, e.byteSpan.IsSafe e.message ∧ e.byteSpan.Rounds e.message e.location) ∧
    ∀ (message : String) (o : ParseOptions) (e : ParseError), parse message o = .error e →
      e.message = message ∧ e.byteSpan.IsExact message e.location := by
  refine ⟨fun e => ⟨(byteSpan_rounds e).isSafe, byteSpan_rounds e⟩, fun message o e h => ?_⟩
  obtain ⟨f, -, rfl⟩ := exists_failure_of_parse h
  have hwithin := parse_places message o
  rw [h] at hwithin
  exact ⟨rfl, byteSpan_isExact (e := f.toError message) hwithin⟩

/-- Behind a surrogate pair bytes, code units and scalars count differently: the argument
that does not close is reported from byte 4 on, and a reversed location that starts inside
the pair is empty behind it. -/
theorem byteSpan_safe_and_exact_surrogates :
    (∃ e, parse "😀\x7bx" {} = .error e ∧ e.byteSpan = ⟨4, 2⟩ ∧
      e.byteSpan.IsExact "😀\x7bx" e.location) ∧
    (⟨.other, "😀\x7bx", .inLine 1 0, none⟩ : ParseError).byteSpan = ⟨4, 0⟩ ∧
      ByteSpan.IsSafe "😀\x7bx" ⟨4, 0⟩ := by
  have hread : parse "😀\x7bx" {} =
      .error ⟨.expectArgumentClosingBrace, "😀\x7bx", ⟨⟨2, 1, 2⟩, ⟨4, 1, 4⟩⟩, none⟩ := rfl
  have hspan : (⟨.other, "😀\x7bx", .inLine 1 0, none⟩ : ParseError).byteSpan = ⟨4, 0⟩ := rfl
  have hsafe := (byteSpan_safe_and_exact.1 ⟨.other, "😀\x7bx", .inLine 1 0, none⟩).1
  rw [hspan] at hsafe
  exact ⟨⟨_, hread, rfl, (byteSpan_safe_and_exact.2 _ _ _ hread).2⟩, hspan, hsafe⟩

end MessagePattern
