/-
# Places in a message

A position is counted up while a text is read, scalar by scalar.  Here it is
counted the other way, from the text as a whole: its length in code units, its
line feeds, and what stands behind the last of them.  The two agree, so every
position that a cursor takes is the point behind some beginning of the message.

`Spans` is the notion that locations are described with: a text of the message
with the points in front of it and behind it.
-/

import MessagePattern.Proofs.Cursor
import Mathlib.Data.List.DropRight

namespace MessagePattern

/-- The point behind a text. -/
def Position.behind (text : List Char) : Position :=
  ⟨utf16Length text, 1 + text.count '\n', 1 + (text.rtakeWhile (· != '\n')).length⟩

/-- What a text takes, counted scalar by scalar, is what its parts take. -/
theorem foldr_width_append (width : Char → Nat) (first second : List Char) :
    (first ++ second).foldr (fun c n => width c + n) 0 =
      first.foldr (fun c n => width c + n) 0 + second.foldr (fun c n => width c + n) 0 := by
  induction first with
  | nil => exact (Nat.zero_add _).symm
  | cons c first ih => rw [List.cons_append, List.foldr_cons, List.foldr_cons, ih, Nat.add_assoc]

theorem utf16Length_cons (c : Char) (text : List Char) :
    utf16Length (c :: text) = utf16Width c + utf16Length text := rfl

theorem utf16Length_append (first second : List Char) :
    utf16Length (first ++ second) = utf16Length first + utf16Length second :=
  foldr_width_append utf16Width first second

theorem utf8Length_cons (c : Char) (text : List Char) :
    utf8Length (c :: text) = c.utf8Size + utf8Length text := rfl

theorem utf8Length_append (first second : List Char) :
    utf8Length (first ++ second) = utf8Length first + utf8Length second :=
  foldr_width_append Char.utf8Size first second

theorem utf8Length_pos {text : List Char} (h : text ≠ []) : 0 < utf8Length text := by
  obtain ⟨c, text, rfl⟩ := List.exists_cons_of_ne_nil h
  rw [utf8Length_cons]
  exact Nat.add_pos_left c.utf8Size_pos _

/-- The length that is counted scalar by scalar is that of the encoded text. -/
theorem utf8Length_eq_utf8ByteSize (text : List Char) :
    utf8Length text = (String.ofList text).utf8ByteSize := by
  induction text with
  | nil => rfl
  | cons c text ih =>
      have hsplit : String.ofList (c :: text) = String.singleton c ++ String.ofList text := by
        rw [String.singleton_eq_ofList, ← String.ofList_append, List.singleton_append]
      rw [hsplit, String.utf8ByteSize_append, String.utf8ByteSize_singleton, ← ih, utf8Length_cons]

/-- One more scalar moves the point on as the cursor does. -/
theorem Position.next_behind (text : List Char) (c : Char) :
    (behind text).next c = behind (text ++ [c]) := by
  have hlength : utf16Length (text ++ [c]) = utf16Length text + utf16Width c := by
    rw [utf16Length_append]
    rfl
  by_cases hc : c = '\n'
  · subst hc
    have hrun : (text ++ ['\n']).rtakeWhile (· != '\n') = [] :=
      List.rtakeWhile_concat_neg _ _ _ (by decide)
    simp only [next, behind, if_true, hlength, hrun, List.count_append, List.count_singleton_self,
      List.length_nil, Nat.add_zero, Nat.add_assoc]
  · have hrun : (text ++ [c]).rtakeWhile (· != '\n') = text.rtakeWhile (· != '\n') ++ [c] :=
      List.rtakeWhile_concat_pos _ _ _ (by simpa using hc)
    have hcount : [c].count '\n' = 0 := by simpa [List.count_eq_zero] using Ne.symm hc
    simp only [next, behind, if_neg hc, hlength, hrun, hcount, List.count_append,
      List.length_append, List.length_singleton, Nat.add_zero, Nat.add_assoc]

/-- Reading on from the point behind a text leads to the point behind both. -/
theorem Position.behind_after (text more : List Char) :
    (behind text).after more = behind (text ++ more) := by
  induction more generalizing text with
  | nil => simp
  | cons c more ih =>
      rw [after_cons, next_behind, ih, List.append_assoc]
      rfl

/-- Reading `text` in `message` leads from one point to the other. -/
def Spans (message : List Char) (p : Position) (text : List Char) (q : Position) : Prop :=
  ∃ before after, message = before ++ (text ++ after) ∧
    p = .behind before ∧ q = .behind (before ++ text)

/-- A location is a part of a message, from a point of the message to a later
one. -/
structure Location.Within (message : List Char) (l : Location) : Prop where
  spans : ∃ text, Spans message l.start text l.stop
  ordered : l.start.offset ≤ l.stop.offset

theorem Spans.within {message text : List Char} {p q : Position} (h : Spans message p text q) :
    Location.Within message ⟨p, q⟩ where
  spans := ⟨text, h⟩
  ordered := by
    obtain ⟨before, after, -, rfl, rfl⟩ := h
    show utf16Length before ≤ utf16Length (before ++ text)
    rw [utf16Length_append]
    exact Nat.le_add_right _ _

namespace Cursor

/-- Moving past a text moves the position past it. -/
theorem Passes.position {c d : Cursor} {text : List Char} (h : c.Passes text d) :
    d.position = c.position.after text := by
  obtain ⟨hrest, rfl⟩ := h
  generalize (c.advance text.length).rest = tail at hrest
  induction text generalizing c with
  | nil => rfl
  | cons ch text ih =>
      have hposition : c.bump.position = c.position.next ch := by simp [bump, hrest]
      rw [List.length_cons, advance_succ, ih (rest_bump_cons hrest), hposition,
        Position.after_cons]

/-- Moving past a text moves the byte offset past it. -/
theorem Passes.byteOffset {c d : Cursor} {text : List Char} (h : c.Passes text d) :
    d.byteOffset = c.byteOffset + utf8Length text := by
  obtain ⟨hrest, rfl⟩ := h
  generalize (c.advance text.length).rest = tail at hrest
  induction text generalizing c with
  | nil => rfl
  | cons ch text ih =>
      have hbytes : c.bump.byteOffset = c.byteOffset + ch.utf8Size := by simp [bump, hrest]
      rw [List.length_cons, advance_succ, ih (rest_bump_cons hrest), hbytes, utf8Length_cons,
        Nat.add_assoc]

/-- The cursor stands somewhere in the message. -/
def IsIn (message : List Char) (c : Cursor) : Prop :=
  ∃ before, message = before ++ c.rest ∧ c.position = .behind before

theorem isIn_start (message : List Char) : (start message).IsIn message := ⟨[], rfl, rfl⟩

theorem Passes.isIn {message text : List Char} {c d : Cursor} (h : c.Passes text d)
    (hc : c.IsIn message) : d.IsIn message := by
  obtain ⟨before, hmessage, hposition⟩ := hc
  refine ⟨before ++ text, ?_, ?_⟩
  · rw [hmessage, h.rest, List.append_assoc]
  · rw [h.position, hposition, Position.behind_after]

theorem Reaches.isIn {message : List Char} {c d : Cursor} (h : c.Reaches d)
    (hc : c.IsIn message) : d.IsIn message := by
  obtain ⟨text, htext⟩ := h.passes
  exact htext.isIn hc

/-- A text that a cursor passes is one of the message. -/
theorem Passes.spans {message text : List Char} {c d : Cursor} (h : c.Passes text d)
    (hc : c.IsIn message) : Spans message c.position text d.position := by
  obtain ⟨before, hmessage, hposition⟩ := hc
  refine ⟨before, d.rest, ?_, hposition, ?_⟩
  · rw [hmessage, h.rest]
  · rw [h.position, hposition, Position.behind_after]

theorem Reaches.within {message : List Char} {c d : Cursor} (h : c.Reaches d)
    (hc : c.IsIn message) : (d.since c.position).Within message := by
  obtain ⟨text, htext⟩ := h.passes
  exact (htext.spans hc).within

/-- The location lies ahead of the cursor. -/
def Sees (c : Cursor) (l : Location) : Prop :=
  ∃ d e : Cursor, c.Reaches d ∧ d.Reaches e ∧ l = e.since d.position

theorem Reaches.sees_since {c d e : Cursor} (h : c.Reaches d) (h' : d.Reaches e) :
    c.Sees (e.since d.position) := ⟨d, e, h, h', rfl⟩

theorem Reaches.sees_here {c d : Cursor} (h : c.Reaches d) : c.Sees d.here :=
  ⟨d, d, h, .refl d, rfl⟩

theorem Reaches.sees {c d : Cursor} {l : Location} (h : c.Reaches d) (hl : d.Sees l) :
    c.Sees l := by
  obtain ⟨e, f, he, hf, rfl⟩ := hl
  exact (h.trans he).sees_since hf

/-- What lies ahead of a cursor in a message is part of the message. -/
theorem Sees.within {message : List Char} {c : Cursor} {l : Location} (h : c.Sees l)
    (hc : c.IsIn message) : l.Within message := by
  obtain ⟨d, e, hd, he, rfl⟩ := h
  exact he.within (hd.isIn hc)

end Cursor

end MessagePattern
