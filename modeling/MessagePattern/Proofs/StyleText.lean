/-
# The text of a style

The scanner of styles stops at the brace that closes the argument.  Its result
is described by `styleMatches`: what it takes is balanced, and it takes a
balanced text whole whatever follows the brace behind it.  White space plays no
part in this, so trimming a style or writing its tokens anew keeps it balanced.

From this follow the two facts about styles that the reading and writing of
arguments need: a style that was read is well formed, and a well-formed style
that was written is read back, unless white space at the edge of a number
skeleton was part of it.
-/

import Mathlib.Data.List.TakeWhile
import MessagePattern.Proofs.Cursor
import MessagePattern.Proofs.Erasure
import MessagePattern.Proofs.NumberTokens

namespace MessagePattern

/-! ## Balanced texts -/

/-- A balanced text is taken whole by the scanner. -/
theorem scanStyle_of_styleMatches {text tail : List Char} {depth passed : Nat}
    {quote : Option Nat} (h : styleMatches depth quote.isSome text) :
    scanStyle depth quote passed (text ++ '}' :: tail) = .ok (passed + text.length) := by
  induction text generalizing depth passed quote with
  | nil =>
      simp only [styleMatches, Bool.and_eq_true, beq_iff_eq, Bool.not_eq_true',
        Option.isSome_eq_false_iff, Option.isNone_iff_eq_none] at h
      obtain ⟨rfl, rfl⟩ := h
      simp [scanStyle]
  | cons c text ih =>
      rw [List.cons_append, List.length_cons, Nat.add_comm text.length, ← Nat.add_assoc]
      cases quote with
      | some start =>
          by_cases hquote : c = '\''
          · subst hquote
            exact ih (by simpa [styleMatches] using h)
          · simp only [scanStyle, if_neg hquote]
            exact ih (by simpa [styleMatches, hquote] using h)
      | none =>
          by_cases hquote : c = '\''
          · subst hquote
            exact ih (by simpa [styleMatches] using h)
          by_cases hopen : c = '{'
          · subst hopen
            exact ih (by simpa [styleMatches] using h)
          by_cases hclose : c = '}'
          · subst hclose
            cases depth with
            | zero => simp [styleMatches] at h
            | succ depth => exact ih (by simpa [styleMatches] using h)
          · simp only [scanStyle, if_neg hquote, if_neg hopen, if_neg hclose]
            exact ih (by simpa [styleMatches, hquote, hopen, hclose] using h)

/-- What the scanner takes is balanced, unless it came to the end of the text. -/
theorem scanStyle_eq_ok {text : List Char} {depth passed n : Nat} {quote : Option Nat}
    (h : scanStyle depth quote passed text = .ok n) :
    ∃ style rest, text = style ++ rest ∧ n = passed + style.length ∧
      (rest = [] ∨ ((∃ tail, rest = '}' :: tail) ∧ styleMatches depth quote.isSome style)) := by
  induction text generalizing depth passed quote with
  | nil =>
      cases quote with
      | some start => simp [scanStyle] at h
      | none => exact ⟨[], [], rfl, by simpa [scanStyle] using h.symm, .inl rfl⟩
  | cons c text ih =>
      -- Every branch but the closing one scans on behind `c`, so all of them are
      -- closed by putting `c` in front of what the induction hypothesis gives.
      have extend {depth' : Nat} {quote' : Option Nat}
          (hscan : scanStyle depth' quote' (passed + 1) text = .ok n)
          (hmatch : ∀ style, styleMatches depth' quote'.isSome style →
            styleMatches depth quote.isSome (c :: style)) :
          ∃ style rest, c :: text = style ++ rest ∧ n = passed + style.length ∧
            (rest = [] ∨
              ((∃ tail, rest = '}' :: tail) ∧ styleMatches depth quote.isSome style)) := by
        obtain ⟨style, rest, rfl, rfl, hrest⟩ := ih hscan
        refine ⟨c :: style, rest, rfl, by rw [List.length_cons]; omega, ?_⟩
        exact hrest.imp id fun ⟨htail, hstyle⟩ => ⟨htail, hmatch style hstyle⟩
      cases quote with
      | some start =>
          by_cases hquote : c = '\''
          · subst hquote
            exact extend h fun style hstyle => by simpa [styleMatches] using hstyle
          · simp only [scanStyle, if_neg hquote] at h
            exact extend h fun style hstyle => by simpa [styleMatches, hquote] using hstyle
      | none =>
          by_cases hquote : c = '\''
          · subst hquote
            exact extend h fun style hstyle => by simpa [styleMatches] using hstyle
          by_cases hopen : c = '{'
          · subst hopen
            exact extend h fun style hstyle => by simpa [styleMatches] using hstyle
          by_cases hclose : c = '}'
          · subst hclose
            cases depth with
            | zero =>
                refine ⟨[], '}' :: text, rfl, ?_, .inr ⟨⟨text, rfl⟩, rfl⟩⟩
                simpa [scanStyle] using h.symm
            | succ depth => exact extend h fun style hstyle => by simpa [styleMatches] using hstyle
          · simp only [scanStyle, if_neg hquote, if_neg hopen, if_neg hclose] at h
            exact extend h fun style hstyle => by
              simpa [styleMatches, hquote, hopen, hclose] using hstyle

/-- Scalars that are neither braces nor apostrophes do not count. -/
theorem styleMatches_filter {p : Char → Bool} (hquote : p '\'' = true) (hopen : p '{' = true)
    (hclose : p '}' = true) (depth : Nat) (quoted : Bool) (text : List Char) :
    styleMatches depth quoted (text.filter p) = styleMatches depth quoted text := by
  induction text generalizing depth quoted with
  | nil => rfl
  | cons c text ih =>
      by_cases hc : p c = true
      · rw [List.filter_cons_of_pos hc]
        cases depth <;> simp [styleMatches, ih]
      · have hne : c ≠ '\'' ∧ c ≠ '{' ∧ c ≠ '}' := by
          refine ⟨?_, ?_, ?_⟩ <;> rintro rfl <;> contradiction
        rw [List.filter_cons_of_neg hc, ih]
        cases quoted <;> simp [styleMatches, hne]

theorem styleMatches_inked (text : List Char) :
    styleMatches 0 false (NumberSkeleton.inked text) = styleMatches 0 false text :=
  styleMatches_filter (by decide) (by decide) (by decide) 0 false text

/-! ## Trimming -/

/-- Trimming at the end takes off white space only. -/
theorem trimEnd_append (text : List Char) :
    ∃ space, text = trimEnd text ++ space ∧ space.all isSpace := by
  refine ⟨(text.reverse.takeWhile isSpace).reverse, ?_, ?_⟩
  · rw [trimEnd, ← List.reverse_append, List.takeWhile_append_dropWhile, List.reverse_reverse]
  · rw [List.all_reverse]
    exact List.all_takeWhile

theorem trimStart_append (text : List Char) :
    ∃ space, text = space ++ trimStart text ∧ space.all isSpace :=
  ⟨text.takeWhile isSpace, List.takeWhile_append_dropWhile.symm, List.all_takeWhile⟩

theorem head?_trimStart (text : List Char) : (trimStart text).head?.any isSpace = false :=
  Cursor.head?_dropWhile isSpace text

theorem getLast?_trimEnd (text : List Char) : (trimEnd text).getLast?.any isSpace = false := by
  rw [trimEnd, List.getLast?_reverse]
  exact head?_trimStart text.reverse

theorem trimStart_eq_self {text : List Char} (h : text.head?.any isSpace = false) :
    trimStart text = text := by
  cases text with
  | nil => rfl
  | cons c text => simp_all [trimStart]

theorem trimEnd_eq_self {text : List Char} (h : text.getLast?.any isSpace = false) :
    trimEnd text = text := by
  rw [trimEnd, ← trimStart, trimStart_eq_self (by simpa using h), List.reverse_reverse]

theorem trimEnd_eq_nil_iff {text : List Char} : trimEnd text = [] ↔ text.all isSpace = true := by
  rw [trimEnd, List.reverse_eq_nil_iff, List.dropWhile_eq_nil_iff]
  simp

/-- Behind a text that does not end with white space, only what follows is trimmed. -/
theorem trimEnd_append_of_last {text : List Char} (h : text.getLast?.any isSpace = false)
    (behind : List Char) : trimEnd (text ++ behind) = text ++ trimEnd behind := by
  have hhead : text.reverse.head?.any isSpace = false := by simpa using h
  rw [trimEnd, List.reverse_append, Cursor.dropWhile_append_of_head _ hhead]
  simp [trimEnd]

/-- Texts that differ in white space only are balanced together. -/
theorem styleMatches_congr {first second : List Char}
    (h : first.filter (!isSpace ·) = second.filter (!isSpace ·)) :
    styleMatches 0 false first = styleMatches 0 false second := by
  have drop (text : List Char) :
      styleMatches 0 false (text.filter (!isSpace ·)) = styleMatches 0 false text :=
    styleMatches_filter (by decide) (by decide) (by decide) 0 false text
  rw [← drop first, h, drop second]

theorem styleMatches_trimEnd (text : List Char) :
    styleMatches 0 false (trimEnd text) = styleMatches 0 false text := by
  obtain ⟨space, htext, hspace⟩ := trimEnd_append text
  apply styleMatches_congr
  conv => rhs; rw [htext]
  simpa using hspace

theorem styleMatches_trimStart (text : List Char) :
    styleMatches 0 false (trimStart text) = styleMatches 0 false text := by
  obtain ⟨space, htext, hspace⟩ := trimStart_append text
  apply styleMatches_congr
  conv => rhs; rw [htext]
  simpa using hspace

/-- Trimming at the end leaves the start alone, as long as anything is left. -/
theorem head?_trimEnd {text : List Char} (h : trimEnd text ≠ []) :
    (trimEnd text).head? = text.head? := by
  obtain ⟨space, htext, -⟩ := trimEnd_append text
  conv => rhs; rw [htext]
  rw [List.head?_append]
  cases hhead : (trimEnd text).head? with
  | none => exact absurd (List.head?_eq_none_iff.mp hhead) h
  | some c => rfl

theorem getLast?_trimStart {text : List Char} (h : trimStart text ≠ []) :
    (trimStart text).getLast? = text.getLast? := by
  obtain ⟨space, htext, -⟩ := trimStart_append text
  conv => rhs; rw [htext]
  rw [List.getLast?_append]
  cases hlast : (trimStart text).getLast? with
  | none => exact absurd (List.getLast?_eq_none_iff.mp hlast) h
  | some c => rfl

/-! ## Styles that are read are well formed -/

/-- What the reader of a style went over, trimmed and not. -/
theorem readStyle_eq_ok {c d : Cursor} {text : List Char} {location : Location}
    (h : readStyle c = .ok ((text, location), d)) (hclosed : ∃ tail, d.rest = '}' :: tail) :
    ∃ raw, c.rest = raw ++ d.rest ∧ text = trimEnd raw ∧ text ≠ [] ∧
      styleMatches 0 false raw ∧ c.Reaches d := by
  obtain ⟨⟨raw, stop⟩, hraw, rest⟩ := bind_eq_ok h
  simp only at rest
  split at rest
  · cases rest
  · next hempty =>
      cases rest
      unfold readStyleText at hraw
      split at hraw
      · next n hscan =>
          cases hraw
          obtain ⟨style, rest, hrest, hn, hstop⟩ := scanStyle_eq_ok hscan
          have hn : n = style.length := by omega
          have htake : c.rest.take n = style := by rw [hrest, hn, List.take_left]
          have hdrop : (c.advance n).rest = rest := by
            rw [Cursor.rest_advance, hrest, hn, List.drop_left]
          rw [htake] at hempty ⊢
          rw [hdrop] at hclosed ⊢
          rcases hstop with rfl | ⟨-, hmatch⟩
          · obtain ⟨tail, htail⟩ := hclosed
            cases htail
          · exact ⟨style, hrest, rfl, by simpa using hempty, hmatch, Cursor.reaches_advance n c⟩
      · cases hraw

theorem skeletonText?_eq_some {text skeleton : List Char} (h : skeletonText? text = some skeleton) :
    ∃ raw, text = ':' :: ':' :: raw ∧ skeleton = trimStart raw := by
  unfold skeletonText? at h
  split at h
  · next raw => exact ⟨raw, rfl, (Option.some.inj h).symm⟩
  · cases h

theorem isTextStyle_trimEnd {raw : List Char} (hne : trimEnd raw ≠ [])
    (hstart : raw.head?.any isPatternSpace = false) (hmatch : styleMatches 0 false raw)
    (hplain : skeletonText? (trimEnd raw) = none) : IsTextStyle (trimEnd raw) where
  nonempty := hne
  start := by rwa [head?_trimEnd hne]
  stop := getLast?_trimEnd raw
  plain := hplain
  balanced := by rwa [styleMatches_trimEnd]

/-- The text of a skeleton inside a style is balanced as the style is. -/
theorem styleMatches_skeleton {raw inner : List Char} (hmatch : styleMatches 0 false raw)
    (hraw : trimEnd raw = ':' :: ':' :: inner) : styleMatches 0 false (trimStart inner) := by
  rw [styleMatches_trimStart]
  rw [← styleMatches_trimEnd, hraw] at hmatch
  simpa [styleMatches] using hmatch

/-- Number styles that are read are well formed. -/
theorem numberStyle_wellFormed {o : ParseOptions} {raw : List Char} {location : Location}
    {c : Cursor} {style : Style NumberSkeleton} (hne : trimEnd raw ≠ [])
    (hstart : raw.head?.any isPatternSpace = false) (hmatch : styleMatches 0 false raw)
    (h : numberStyle o (trimEnd raw) location c = .ok style) : NumberStyleWellFormed o style := by
  unfold numberStyle at h
  split at h
  · next hplain =>
      cases h
      simpa [NumberStyleWellFormed] using isTextStyle_trimEnd hne hstart hmatch hplain
  · next skeleton hskeleton =>
      obtain ⟨inner, hinner, rfl⟩ := skeletonText?_eq_some hskeleton
      split at h
      · cases h
      split at h
      · cases h
      · next ts htokens =>
          obtain ⟨hnonempty, hdistinct, hinked⟩ := NumberSkeleton.tokenize_eq_ok htokens
          have hbalanced : styleMatches 0 false (NumberSkeleton.renderTokens ts) := by
            rw [← styleMatches_inked, hinked, styleMatches_inked]
            exact styleMatches_skeleton hmatch hinner
          split at h
          · next hparse =>
              split at h
              · cases h
              · next options hoptions =>
                  cases h
                  exact ⟨hnonempty, hdistinct, hbalanced, by
                    simp [interpretation, hparse, hoptions]⟩
          · next hparse =>
              cases h
              exact ⟨hnonempty, hdistinct, hbalanced, by simp [interpretation, hparse]⟩

/-- Date and time styles that are read are well formed. -/
theorem dateTimeStyle_wellFormed {o : ParseOptions} {raw : List Char} {location element : Location}
    {c : Cursor} {style : Style DateTimeSkeleton} (hne : trimEnd raw ≠ [])
    (hstart : raw.head?.any isPatternSpace = false) (hmatch : styleMatches 0 false raw)
    (h : dateTimeStyle o (trimEnd raw) location element c = .ok style) :
    DateTimeStyleWellFormed o style := by
  unfold dateTimeStyle at h
  split at h
  · next hplain =>
      cases h
      simpa [DateTimeStyleWellFormed] using isTextStyle_trimEnd hne hstart hmatch hplain
  · next skeleton hskeleton =>
      obtain ⟨inner, hinner, rfl⟩ := skeletonText?_eq_some hskeleton
      split at h
      · cases h
      · next hempty =>
          have hpattern : trimStart inner ≠ [] := by simpa using hempty
          have hbalanced := styleMatches_skeleton hmatch hinner
          have htrimmed : isSpaceBounded (trimStart inner) = false := by
            have hlast := getLast?_trimEnd raw
            have hinnerNe : inner ≠ [] := by
              rintro rfl
              exact hpattern rfl
            rw [hinner, List.getLast?_cons_cons, List.getLast?_cons_of_ne_nil hinnerNe] at hlast
            rw [isSpaceBounded, head?_trimStart, getLast?_trimStart hpattern, hlast]
            rfl
          split at h
          · next hparse =>
              split at h
              · cases h
              · next options hoptions =>
                  cases h
                  exact ⟨by simpa using hpattern, by simpa using htrimmed,
                    by simpa using hbalanced, by simp [interpretation, hparse, hoptions]⟩
          · next hparse =>
              cases h
              exact ⟨by simpa using hpattern, by simpa using htrimmed,
                by simpa using hbalanced, by simp [interpretation, hparse]⟩

/-! ## Styles that are written are read back -/

theorem readStyle_of_rest {text tail : List Char} {c : Cursor} (h : c.rest = text ++ '}' :: tail)
    (hne : trimEnd text ≠ []) (hmatch : styleMatches 0 false text) :
    ∃ location d, readStyle c = .ok ((trimEnd text, location), d) ∧ d.rest = '}' :: tail := by
  have hscan : scanStyle 0 none 0 c.rest = .ok text.length := by
    rw [h, scanStyle_of_styleMatches (by simpa using hmatch), Nat.zero_add]
  have hread : readStyleText c = .ok (text, c.advance text.length) := by
    rw [readStyleText, hscan]
    simp [h]
  refine ⟨(c.advance text.length).since c.position, c.advance text.length, ?_,
    Cursor.rest_advance_append h⟩
  rw [readStyle, hread]
  simp [bind, Except.bind, hne]

theorem trimEnd_cons_of_not_space {c : Char} {text : List Char} (h : isSpace c = false) :
    trimEnd (c :: text) = c :: trimEnd text := by
  rw [trimEnd, List.reverse_cons, List.dropWhile_append]
  split
  · next hempty => simp [trimEnd, List.isEmpty_iff.mp hempty, h]
  · simp [trimEnd]

theorem trimEnd_colons (text : List Char) :
    trimEnd (':' :: ':' :: text) = ':' :: ':' :: trimEnd text := by
  rw [trimEnd_cons_of_not_space (by decide), trimEnd_cons_of_not_space (by decide)]

namespace NumberSkeleton

theorem renderTokens_ne_nil {ts : List NumberToken} (hne : ts ≠ [])
    (h : ∀ t ∈ ts, t.IsDistinct) : renderTokens ts ≠ [] := by
  match ts with
  | [] => exact absurd rfl hne
  | [t] => simpa using renderToken_ne_nil (h t List.mem_cons_self)
  | t :: u :: ts => simp [renderTokens_cons_cons]

/-- Written tokens begin with a scalar that is not skipped between tokens. -/
theorem head?_renderTokens {ts : List NumberToken} (h : ∀ t ∈ ts, t.IsDistinct) :
    (renderTokens ts).head?.any isPatternSpace = false := by
  match ts with
  | [] => rfl
  | t :: ts =>
      have ht := h t List.mem_cons_self
      have hhead : (renderTokens (t :: ts)).head? = (renderToken t).head? := by
        obtain ⟨c, text, htext⟩ := List.exists_cons_of_ne_nil (renderToken_ne_nil ht)
        cases ts with
        | nil => simp
        | cons u ts => simp [renderTokens_cons_cons, htext]
      rw [hhead]
      cases hfirst : (renderToken t).head? with
      | none => rfl
      | some c =>
          exact isPatternSpace_of_mem_renderToken ht c (List.mem_of_mem_head? (by simp [hfirst]))

/-- Written tokens end with a scalar that is not skipped between tokens. -/
theorem getLast?_renderTokens {ts : List NumberToken} (h : ∀ t ∈ ts, t.IsDistinct) :
    (renderTokens ts).getLast?.any isPatternSpace = false := by
  induction ts with
  | nil => rfl
  | cons t ts ih =>
      cases ts with
      | nil =>
          rw [renderTokens_singleton]
          cases hlast : (renderToken t).getLast? with
          | none => rfl
          | some c =>
              exact isPatternSpace_of_mem_renderToken (h t List.mem_cons_self) c
                (List.mem_of_mem_getLast? (by simp [hlast]))
      | cons u ts =>
          have hts : ∀ v ∈ u :: ts, v.IsDistinct := fun v hv => h v (List.mem_cons_of_mem t hv)
          rw [renderTokens_cons_cons, List.getLast?_append_of_ne_nil _ (by simp),
            List.getLast?_cons_of_ne_nil (renderTokens_ne_nil (by simp) hts)]
          exact ih hts

end NumberSkeleton

/-- A part without anything that counts holds pattern white space only. -/
theorem not_mem_of_inked_eq_nil {part : List Char} (h : NumberSkeleton.inked part = []) {c : Char}
    (hc : isPatternSpace c = false) : c ∉ part := by
  intro hmem
  have hinked : c ∈ NumberSkeleton.inked part := List.mem_filter.mpr ⟨hmem, by simp [hc]⟩
  simp [h] at hinked

/-- Trimming takes nothing off an end that it leaves as it is. -/
theorem getLast?_of_trimEnd {text after : List Char} (hafter : text = trimEnd text ++ after)
    (hinked : NumberSkeleton.inked after = [])
    (hlast : text.getLast?.any isPatternSpace = false) : text.getLast?.any isSpace = false := by
  cases hc : text.getLast? with
  | none => rfl
  | some c =>
      have hnot := not_mem_of_inked_eq_nil hinked (by simpa [hc] using hlast)
      have hnil : after = [] := by
        by_contra hne
        rw [hafter, List.getLast?_append_of_ne_nil _ hne] at hc
        exact hnot (List.mem_of_mem_getLast? (by simp [hc]))
      have htrimmed := getLast?_trimEnd text
      rw [hnil, List.append_nil] at hafter
      rwa [← hafter, hc] at htrimmed

/-- Trimming takes nothing off a start that it leaves as it is. -/
theorem head?_of_trimStart {text before : List Char} (hbefore : text = before ++ trimStart text)
    (hinked : NumberSkeleton.inked before = [])
    (hhead : text.head?.any isPatternSpace = false) : text.head?.any isSpace = false := by
  cases hc : text.head? with
  | none => rfl
  | some c =>
      have hnot := not_mem_of_inked_eq_nil hinked (by simpa [hc] using hhead)
      have hnil : before = [] := by
        by_contra hne
        obtain ⟨d, rest, rfl⟩ := List.exists_cons_of_ne_nil hne
        rw [hbefore] at hc
        simp only [List.cons_append, List.head?_cons, Option.some.injEq] at hc
        exact hnot (by simp [hc])
      have htrimmed := head?_trimStart text
      rw [hnil, List.nil_append] at hbefore
      rwa [← hbefore, hc] at htrimmed

/-- White space of the wider class that bounds a text and is not skipped between
tokens is lost when the text is trimmed. -/
theorem inked_trim_ne {text : List Char} (hhead : text.head?.any isPatternSpace = false)
    (hlast : text.getLast?.any isPatternSpace = false) (hbounded : isSpaceBounded text = true) :
    NumberSkeleton.inked (trimStart (trimEnd text)) ≠ NumberSkeleton.inked text := by
  intro hinked
  obtain ⟨after, hafter, -⟩ := trimEnd_append text
  obtain ⟨before, hbefore, -⟩ := trimStart_append (trimEnd text)
  -- Nothing that counts is trimmed on either side.
  have hlost : NumberSkeleton.inked before = [] ∧ NumberSkeleton.inked after = [] := by
    have hall : NumberSkeleton.inked text = NumberSkeleton.inked before ++
        NumberSkeleton.inked (trimStart (trimEnd text)) ++ NumberSkeleton.inked after := by
      conv => lhs; rw [hafter, hbefore]
      simp
    have hlength := congrArg List.length (hinked.trans hall)
    simp only [List.length_append] at hlength
    exact ⟨List.length_eq_zero_iff.mp (by omega), List.length_eq_zero_iff.mp (by omega)⟩
  have hend := getLast?_of_trimEnd hafter hlost.2 hlast
  rw [trimEnd_eq_self hend] at hbefore
  have hstart := head?_of_trimStart hbefore hlost.1 hhead
  simp [isSpaceBounded, hstart, hend] at hbounded

end MessagePattern
