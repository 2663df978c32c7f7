/-
# Where a text occurs in another

A search that goes through the bytes of a text and a search that goes through its
scalars find a pattern at the same places.  This is a property of UTF-8: the first
byte of a scalar is never one of the further bytes of another scalar, so the bytes of
a pattern cannot begin inside a scalar of the text.  Only the empty pattern, which has
no first byte, occurs between any two bytes; but it is found at once by either search.

`occurrences` counts whatever members the two lists have, so both searches are said
with one notion.
-/

import Mathlib.Order.Bounds.Defs
import MessagePattern.Proofs.Places

namespace MessagePattern

/-! ## Occurrences in a list -/

section Lists

variable {α : Type} {pattern text : List α} {n : Nat}

/-- The places where a pattern occurs in a list, each given by the number of members
before it. -/
def occurrences (pattern text : List α) : Set Nat :=
  {n | ∃ before after, text = before ++ (pattern ++ after) ∧ n = before.length}

theorem zero_mem_occurrences_iff : 0 ∈ occurrences pattern text ↔ pattern <+: text := by
  constructor
  · rintro ⟨before, after, rfl, hzero⟩
    obtain rfl := List.length_eq_zero_iff.mp hzero.symm
    exact ⟨after, rfl⟩
  · rintro ⟨after, rfl⟩
    exact ⟨[], after, rfl, rfl⟩

theorem succ_mem_occurrences_iff {a : α} :
    n + 1 ∈ occurrences pattern (a :: text) ↔ n ∈ occurrences pattern text := by
  constructor
  · rintro ⟨_ | ⟨b, before⟩, after, htext, hlength⟩
    · exact absurd hlength (Nat.succ_ne_zero n)
    · exact ⟨before, after, (List.cons.inj htext).2, Nat.succ.inj hlength⟩
  · rintro ⟨before, after, rfl, rfl⟩
    exact ⟨a :: before, after, rfl, rfl⟩

theorem mem_occurrences_nil_iff :
    n ∈ occurrences pattern ([] : List α) ↔ pattern = [] ∧ n = 0 := by
  constructor
  · rintro ⟨before, after, htext, rfl⟩
    obtain ⟨rfl, hrest⟩ := List.append_eq_nil_iff.mp htext.symm
    exact ⟨(List.append_eq_nil_iff.mp hrest).1, rfl⟩
  · rintro ⟨rfl, rfl⟩
    exact ⟨[], [], rfl, rfl⟩

theorem nonempty_occurrences_iff : (occurrences pattern text).Nonempty ↔ pattern <:+: text := by
  constructor
  · rintro ⟨-, before, after, htext, -⟩
    exact ⟨before, after, by rw [htext, List.append_assoc]⟩
  · rintro ⟨before, after, htext⟩
    exact ⟨before.length, before, after, by rw [← htext, List.append_assoc], rfl⟩

end Lists

/-! ## The search -/

namespace Cursor

variable {pattern text : List Char}

/-- What is found is the first occurrence. -/
theorem isLeast_of_distance?_eq_some {n : Nat} (h : distance? pattern text = some n) :
    IsLeast (occurrences pattern text) n := by
  induction text generalizing n with
  | nil =>
      rw [distance?] at h
      split at h
      · next hempty =>
          cases h
          exact ⟨mem_occurrences_nil_iff.mpr ⟨List.isEmpty_iff.mp hempty, rfl⟩,
            fun _ _ => Nat.zero_le _⟩
      · cases h
  | cons c text ih =>
      rw [distance?] at h
      split at h
      · next hstarts =>
          cases h
          exact ⟨zero_mem_occurrences_iff.mpr (List.isPrefixOf_iff_prefix.mp hstarts),
            fun _ _ => Nat.zero_le _⟩
      · next hstarts =>
          obtain ⟨m, hm, rfl⟩ := Option.map_eq_some_iff.mp h
          refine ⟨succ_mem_occurrences_iff.mpr (ih hm).1, fun k hk => ?_⟩
          cases k with
          | zero =>
              rw [zero_mem_occurrences_iff, ← List.isPrefixOf_iff_prefix] at hk
              exact absurd hk hstarts
          | succ k => exact Nat.succ_le_succ ((ih hm).2 (succ_mem_occurrences_iff.mp hk))

theorem not_infix_of_distance?_eq_none (h : distance? pattern text = none) :
    ¬ pattern <:+: text := by
  rw [← nonempty_occurrences_iff]
  rintro ⟨n, hn⟩
  induction text generalizing n with
  | nil =>
      obtain ⟨rfl, -⟩ := mem_occurrences_nil_iff.mp hn
      simp [distance?] at h
  | cons c text ih =>
      rw [distance?] at h
      split at h
      · cases h
      · next hstarts =>
          cases n with
          | zero =>
              rw [zero_mem_occurrences_iff, ← List.isPrefixOf_iff_prefix] at hn
              exact hstarts hn
          | succ n =>
              exact ih (Option.map_eq_none_iff.mp h) n (succ_mem_occurrences_iff.mp hn)

end Cursor

/-! ## Bytes -/

/-- The UTF-8 bytes of a text. -/
def utf8Bytes (text : List Char) : List UInt8 := text.flatMap String.utf8EncodeChar

theorem utf8Bytes_cons (c : Char) (text : List Char) :
    utf8Bytes (c :: text) = String.utf8EncodeChar c ++ utf8Bytes text := rfl

theorem utf8Bytes_append (first second : List Char) :
    utf8Bytes (first ++ second) = utf8Bytes first ++ utf8Bytes second :=
  List.flatMap_append

theorem length_utf8Bytes (text : List Char) : (utf8Bytes text).length = utf8Length text := by
  induction text with
  | nil => rfl
  | cons c text ih =>
      rw [utf8Bytes_cons, List.length_append, String.length_utf8EncodeChar, ih, utf8Length_cons]

/-- The bytes of a text begin with the first byte of a scalar. -/
theorem exists_firstByte {text : List Char} (h : text ≠ []) :
    ∃ b bytes, b.IsUTF8FirstByte ∧ utf8Bytes text = b :: bytes := by
  obtain ⟨c, text, rfl⟩ := List.exists_cons_of_ne_nil h
  obtain ⟨b, bytes, hc⟩ := List.exists_cons_of_ne_nil (String.utf8EncodeChar_ne_nil (c := c))
  refine ⟨b, bytes ++ utf8Bytes text, ?_, ?_⟩
  · have hzero := UInt8.isUTF8FirstByte_getElem_zero_utf8EncodeChar (c := c)
    simpa only [hc, List.getElem_cons_zero] using hzero
  · rw [utf8Bytes_cons, hc, List.cons_append]

theorem utf8Bytes_ne_nil {text : List Char} (h : text ≠ []) : utf8Bytes text ≠ [] := by
  obtain ⟨b, bytes, -, hbytes⟩ := exists_firstByte h
  exact hbytes ▸ List.cons_ne_nil b bytes

/-- A text begins as its bytes do. -/
theorem utf8Bytes_prefix_iff {pattern text : List Char} :
    utf8Bytes pattern <+: utf8Bytes text ↔ pattern <+: text := by
  constructor
  · rintro ⟨after, hbytes⟩
    have hencoded := congrArg List.toByteArray hbytes
    rw [List.toByteArray_append] at hencoded
    exact List.isPrefix_of_utf8Encode_append_eq_utf8Encode after.toByteArray hencoded
  · rintro ⟨after, rfl⟩
    exact ⟨utf8Bytes after, (utf8Bytes_append pattern after).symm⟩

/-- Behind the first byte of a scalar no text begins before the scalar ends. -/
theorem not_prefix_of_inside {pattern text : List Char} (hpattern : pattern ≠ []) {c : Char}
    {first second : List UInt8} (hc : String.utf8EncodeChar c = first ++ second)
    (hfirst : first ≠ []) (hsecond : second ≠ []) :
    ¬ utf8Bytes pattern <+: second ++ utf8Bytes text := by
  rintro ⟨after, hbytes⟩
  obtain ⟨b, second, rfl⟩ := List.exists_cons_of_ne_nil hsecond
  obtain ⟨b', bytes, hstart, hpatternBytes⟩ := exists_firstByte hpattern
  obtain rfl : b' = b := by
    rw [hpatternBytes] at hbytes
    exact (List.cons.inj hbytes).1
  have hlength : first.length < (String.utf8EncodeChar c).length := by simp [hc]
  have hinside : (String.utf8EncodeChar c)[first.length].IsUTF8FirstByte ↔ first.length = 0 :=
    UInt8.isUTF8FirstByte_getElem_utf8EncodeChar
  simp only [hc, List.getElem_append_right (Nat.le_refl _), Nat.sub_self,
    List.getElem_cons_zero] at hinside
  exact hfirst (List.length_eq_zero_iff.mp (hinside.mp hstart))

/-- A pattern occurs in the bytes of a text where it occurs in the text. -/
theorem mem_occurrences_utf8Bytes_iff {pattern text : List Char} (hpattern : pattern ≠ [])
    {n : Nat} :
    n ∈ occurrences (utf8Bytes pattern) (utf8Bytes text) ↔
      ∃ before after, text = before ++ (pattern ++ after) ∧ n = utf8Length before := by
  constructor
  · rintro ⟨front, back, hbytes, rfl⟩
    induction text generalizing front with
    | nil =>
        obtain ⟨-, hrest⟩ := List.append_eq_nil_iff.mp hbytes.symm
        exact absurd (List.append_eq_nil_iff.mp hrest).1 (utf8Bytes_ne_nil hpattern)
    | cons c text ih =>
        by_cases hfront : front = []
        · subst hfront
          obtain ⟨after, htext⟩ := utf8Bytes_prefix_iff.mp ⟨back, hbytes.symm⟩
          exact ⟨[], after, htext.symm, rfl⟩
        obtain ⟨front', rfl, hbytes'⟩ : ∃ front', front = String.utf8EncodeChar c ++ front' ∧
            utf8Bytes text = front' ++ (utf8Bytes pattern ++ back) := by
          rcases List.append_eq_append_iff.mp hbytes with found | ⟨inside, hc, hrest⟩
          · exact found
          · obtain rfl : inside = [] := by
              by_contra hinside
              exact not_prefix_of_inside hpattern hc hfront hinside ⟨back, hrest⟩
            exact ⟨[], by rw [List.append_nil, hc, List.append_nil], hrest.symm⟩
        obtain ⟨before, after, rfl, hlength⟩ := ih front' hbytes'
        refine ⟨c :: before, after, rfl, ?_⟩
        rw [List.length_append, String.length_utf8EncodeChar, hlength, utf8Length_cons]
  · rintro ⟨before, after, rfl, rfl⟩
    refine ⟨utf8Bytes before, utf8Bytes after, ?_, (length_utf8Bytes before).symm⟩
    rw [utf8Bytes_append, utf8Bytes_append]

/-- The first occurrence in the text is the first one in its bytes. -/
theorem isLeast_occurrences_utf8Bytes {pattern before after : List Char}
    (h : IsLeast (occurrences pattern (before ++ (pattern ++ after))) before.length) :
    IsLeast (occurrences (utf8Bytes pattern) (utf8Bytes (before ++ (pattern ++ after))))
      (utf8Length before) := by
  obtain ⟨-, hfirst⟩ := h
  refine ⟨⟨utf8Bytes before, utf8Bytes after, ?_, (length_utf8Bytes before).symm⟩, fun n hn => ?_⟩
  · rw [utf8Bytes_append, utf8Bytes_append]
  by_cases hpattern : pattern = []
  · subst hpattern
    have hbefore := hfirst (zero_mem_occurrences_iff.mpr List.nil_prefix)
    obtain rfl := List.length_eq_zero_iff.mp (Nat.le_zero.mp hbefore)
    exact Nat.zero_le n
  · obtain ⟨before', after', htext, rfl⟩ := (mem_occurrences_utf8Bytes_iff hpattern).mp hn
    have hle := hfirst ⟨before', after', htext, rfl⟩
    obtain ⟨more, rfl⟩ : before <+: before' :=
      List.prefix_of_prefix_length_le ⟨_, rfl⟩ ⟨_, htext.symm⟩ hle
    rw [utf8Length_append]
    exact Nat.le_add_right _ _

end MessagePattern
