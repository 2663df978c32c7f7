/-
# Where a style ends

The scanner of styles counts open braces and jumps over quoted text.  Here it is said of a
single closing brace whether it ends a style, by counting in the text before it: an even
number of apostrophes, and as many opening as closing braces among those that have an even
number of apostrophes before them.  The scanner stops at the first brace of this kind.  If
there is none it comes to the end of the text, and fails exactly if the number of
apostrophes is odd.

`ScanState` relates what the scanner carries along to the text behind it, each scalar keeps
it, and the outcome is read off at the end.
-/

import Mathlib.Algebra.Ring.Parity
import MessagePattern.Proofs.Cursor
import MessagePattern.Reader.Style

namespace MessagePattern

/-! ## Braces that end a style -/

/-- How often a scalar occurs in a text with an even number of apostrophes before it. -/
def unquotedCount (c : Char) (text : List Char) : Nat :=
  (List.range text.length).countP fun i => text[i]? = some c ∧ Even ((text.take i).count '\'')

/-- The scalar behind the first `n` ones is a closing brace that ends a style. -/
structure EndsStyleAt (text : List Char) (n : Nat) : Prop where
  brace : text[n]? = some '}'
  unquoted : Even ((text.take n).count '\'')
  balanced : unquotedCount '{' (text.take n) = unquotedCount '}' (text.take n)

instance (text : List Char) (n : Nat) : Decidable (EndsStyleAt text n) :=
  decidable_of_iff (text[n]? = some '}' ∧ Even ((text.take n).count '\'') ∧
      unquotedCount '{' (text.take n) = unquotedCount '}' (text.take n))
    ⟨fun ⟨brace, unquoted, balanced⟩ => ⟨brace, unquoted, balanced⟩,
      fun ⟨brace, unquoted, balanced⟩ => ⟨brace, unquoted, balanced⟩⟩

/-- Behind the end of a text there is no brace. -/
theorem never_of_forall_lt {text : List Char} (h : ∀ n < text.length, ¬ EndsStyleAt text n)
    (n : Nat) : ¬ EndsStyleAt text n := by
  intro hends
  exact h n (List.getElem?_eq_some_iff.mp hends.brace).1 hends

theorem unquotedCount_concat (c : Char) (text : List Char) (d : Char) :
    unquotedCount c (text ++ [d]) =
      unquotedCount c text + if d = c ∧ Even (text.count '\'') then 1 else 0 := by
  rw [unquotedCount, List.length_append, List.length_singleton, List.range_succ,
    List.countP_append]
  congr 1
  · apply List.countP_congr
    intro i hi
    rw [List.mem_range] at hi
    rw [List.getElem?_append_left hi, List.take_append_of_le_length (Nat.le_of_lt hi)]
  · simp [List.countP_cons]

theorem endsStyleAt_length {before text : List Char} {c : Char} :
    EndsStyleAt (before ++ c :: text) before.length ↔
      c = '}' ∧ Even (before.count '\'') ∧
        unquotedCount '{' before = unquotedCount '}' before := by
  have htake : (before ++ c :: text).take before.length = before := List.take_left
  have hhead : (before ++ c :: text)[before.length]? = some c := by simp
  constructor
  · rintro ⟨brace, unquoted, balanced⟩
    rw [htake] at unquoted balanced
    rw [hhead] at brace
    exact ⟨Option.some.inj brace, unquoted, balanced⟩
  · rintro ⟨rfl, unquoted, balanced⟩
    exact ⟨hhead, by rwa [htake], by rwa [htake]⟩

/-! ## What the scanner knows -/

/-- Behind `before` the scanner has `depth` braces open and, if inside quoted text, knows
how many scalars there are up to the last apostrophe. -/
structure ScanState (before : List Char) (depth : Nat) (quote : Option Nat) : Prop where
  quoted : quote.isSome = true ↔ Odd (before.count '\'')
  opened : ∀ start, quote = some start → ∃ front inside,
    before = front ++ '\'' :: inside ∧ '\'' ∉ inside ∧ start = front.length + 1
  balance : unquotedCount '{' before = unquotedCount '}' before + depth

namespace ScanState

variable {before : List Char} {depth start : Nat} {quote : Option Nat} {c : Char}

theorem nil : ScanState [] 0 none := ⟨by simp, nofun, rfl⟩

theorem even (h : ScanState before depth none) : Even (before.count '\'') := by
  rw [← Nat.not_odd_iff_even, ← h.quoted]
  exact Bool.false_ne_true

theorem odd (h : ScanState before depth (some start)) : Odd (before.count '\'') :=
  h.quoted.mp rfl

/-- An apostrophe opens quoted text. -/
theorem openQuote (h : ScanState before depth none) :
    ScanState (before ++ ['\'']) depth (some (before.length + 1)) where
  quoted := by
    rw [List.count_append, List.count_singleton_self]
    exact iff_of_true rfl h.even.add_one
  opened := by
    rintro start hstart
    cases hstart
    exact ⟨before, [], rfl, List.not_mem_nil, rfl⟩
  balance := by
    rw [unquotedCount_concat, unquotedCount_concat]
    exact h.balance

/-- The next apostrophe closes it. -/
theorem closeQuote (h : ScanState before depth (some start)) :
    ScanState (before ++ ['\'']) depth none where
  quoted := by
    rw [List.count_append, List.count_singleton_self]
    exact iff_of_false Bool.false_ne_true (Nat.not_odd_iff_even.mpr h.odd.add_one)
  opened := nofun
  balance := by
    rw [unquotedCount_concat, unquotedCount_concat]
    exact h.balance

/-- Inside quoted text nothing else counts. -/
theorem inQuote (h : ScanState before depth (some start)) (hc : c ≠ '\'') :
    ScanState (before ++ [c]) depth (some start) where
  quoted := by
    rw [List.count_append, List.count_singleton, beq_false_of_ne hc]
    exact h.quoted
  opened := by
    rintro start' hstart
    obtain ⟨front, inside, rfl, hlast, hlength⟩ := h.opened start' hstart
    refine ⟨front, inside ++ [c], by simp, ?_, hlength⟩
    simp [hlast, Ne.symm hc]
  balance := by
    have hodd := Nat.not_even_iff_odd.mpr h.odd
    simpa [unquotedCount_concat, hodd] using h.balance

/-- Outside of quoted text the depth follows the braces. -/
theorem outside {depth' : Nat} (h : ScanState before depth none) (hc : c ≠ '\'')
    (hdepth : (if c = '{' then depth + 1 else depth) = depth' + if c = '}' then 1 else 0) :
    ScanState (before ++ [c]) depth' none where
  quoted := by
    rw [List.count_append, List.count_singleton, beq_false_of_ne hc]
    exact h.quoted
  opened := nofun
  balance := by
    have hbalance := h.balance
    simp only [unquotedCount_concat, h.even, and_true]
    grind

end ScanState

/-! ## What comes out -/

/-- The outcomes of scanning a style: it ends at the first brace that can end it, or with
the text, or not at all. -/
inductive StyleScan (text : List Char) : Except Nat Nat → Prop
  | closed {n : Nat} (ends : EndsStyleAt text n) (first : ∀ m < n, ¬ EndsStyleAt text m) :
      StyleScan text (.ok n)
  | whole (never : ∀ n, ¬ EndsStyleAt text n) (even : Even (text.count '\'')) :
      StyleScan text (.ok text.length)
  | unclosed {front inside : List Char} (never : ∀ n, ¬ EndsStyleAt text n)
      (odd : Odd (text.count '\'')) (split : text = front ++ '\'' :: inside)
      (last : '\'' ∉ inside) : StyleScan text (.error (front.length + 1))

/-- Wherever the scanner stands, what it knows leads to one of these outcomes for the whole
text. -/
theorem ScanState.scan {before text : List Char} {depth : Nat} {quote : Option Nat}
    (h : ScanState before depth quote)
    (hnone : ∀ m < before.length, ¬ EndsStyleAt (before ++ text) m) :
    StyleScan (before ++ text) (scanStyle depth quote before.length text) := by
  induction text generalizing before depth quote with
  | nil =>
      rw [List.append_nil] at hnone ⊢
      have hnever := never_of_forall_lt hnone
      cases quote with
      | none => exact .whole hnever h.even
      | some start =>
          obtain ⟨front, inside, hsplit, hlast, rfl⟩ := h.opened start rfl
          exact .unclosed hnever h.odd hsplit hlast
  | cons c text ih =>
      -- Unless `c` ends the style the scanner goes on behind it.
      have goesOn {depth' : Nat} {quote' : Option Nat}
          (hstate : ScanState (before ++ [c]) depth' quote')
          (hc : ¬ EndsStyleAt (before ++ c :: text) before.length) :
          StyleScan (before ++ c :: text) (scanStyle depth' quote' (before.length + 1) text) := by
        have hscan := ih hstate (by
          intro m hm
          rw [List.append_assoc, List.singleton_append]
          rw [List.length_append, List.length_singleton] at hm
          rcases Nat.lt_succ_iff_lt_or_eq.mp hm with hlt | rfl
          · exact hnone m hlt
          · exact hc)
        rwa [List.append_assoc, List.singleton_append, List.length_append,
          List.length_singleton] at hscan
      have hother (hbrace : c ≠ '}') : ¬ EndsStyleAt (before ++ c :: text) before.length :=
        fun hends => hbrace (endsStyleAt_length.mp hends).1
      cases quote with
      | some start =>
          have hquoted : ¬ EndsStyleAt (before ++ c :: text) before.length := fun hends =>
            Nat.not_even_iff_odd.mpr h.odd (endsStyleAt_length.mp hends).2.1
          by_cases hquote : c = '\''
          · subst hquote
            exact goesOn h.closeQuote hquoted
          · simp only [scanStyle, if_neg hquote]
            exact goesOn (h.inQuote hquote) hquoted
      | none =>
          by_cases hquote : c = '\''
          · subst hquote
            exact goesOn h.openQuote (hother (by decide))
          by_cases hopen : c = '{'
          · subst hopen
            exact goesOn (h.outside (by decide) rfl) (hother (by decide))
          by_cases hclose : c = '}'
          · subst hclose
            cases depth with
            | zero => exact .closed (endsStyleAt_length.mpr ⟨rfl, h.even, h.balance⟩) hnone
            | succ depth =>
                refine goesOn (h.outside (by decide) rfl) fun hends => ?_
                have hbalanced := (endsStyleAt_length.mp hends).2.2
                have hbalance := h.balance
                omega
          · simp only [scanStyle, if_neg hquote, if_neg hopen, if_neg hclose]
            exact goesOn (h.outside hquote (by simp [hopen, hclose])) (hother hclose)

theorem styleScan (text : List Char) : StyleScan text (scanStyle 0 none 0 text) :=
  @ScanState.scan [] text 0 none .nil nofun

namespace StyleScan

variable {text : List Char} {outcome : Except Nat Nat} (h : StyleScan text outcome)

include h

theorem eq_first {n : Nat} (ends : EndsStyleAt text n) (first : ∀ m < n, ¬ EndsStyleAt text m) :
    outcome = .ok n := by
  cases h with
  | @closed m ends' first' =>
      rcases Nat.lt_trichotomy m n with hlt | rfl | hlt
      · exact absurd ends' (first m hlt)
      · rfl
      · exact absurd ends (first' n hlt)
  | whole never _ => exact absurd ends (never n)
  | unclosed never _ _ _ => exact absurd ends (never n)

theorem eq_length (never : ∀ n, ¬ EndsStyleAt text n) (even : Even (text.count '\'')) :
    outcome = .ok text.length := by
  cases h with
  | closed ends _ => exact absurd ends (never _)
  | whole _ _ => rfl
  | unclosed _ odd _ _ => exact absurd even (Nat.not_even_iff_odd.mpr odd)

theorem exists_eq_error (never : ∀ n, ¬ EndsStyleAt text n) (odd : Odd (text.count '\'')) :
    ∃ front inside, text = front ++ '\'' :: inside ∧ '\'' ∉ inside ∧
      outcome = .error (front.length + 1) := by
  cases h with
  | closed ends _ => exact absurd ends (never _)
  | whole _ even => exact absurd even (Nat.not_even_iff_odd.mpr odd)
  | unclosed _ _ split last => exact ⟨_, _, split, last, rfl⟩

end StyleScan

/-- The text of a style is what stands before the first brace that ends one, and the cursor
is left on that brace.  If there is none it is all that is ahead, with the cursor at the
end; but if the number of apostrophes is odd reading fails, from behind the last of them
to the end. -/
theorem readStyleText_exact (c : Cursor) :
    (∀ n, EndsStyleAt c.rest n → (∀ m < n, ¬ EndsStyleAt c.rest m) →
      ∃ stop, readStyleText c = .ok (c.rest.take n, stop) ∧ c.Passes (c.rest.take n) stop ∧
        stop.rest.head? = some '}') ∧
    ((∀ n, ¬ EndsStyleAt c.rest n) → Even (c.rest.count '\'') →
      ∃ stop, readStyleText c = .ok (c.rest, stop) ∧ c.Passes c.rest stop ∧ stop.rest = []) ∧
    ((∀ n, ¬ EndsStyleAt c.rest n) → Odd (c.rest.count '\'') →
      ∃ front inside quote stop, c.Passes (front ++ ['\'']) quote ∧ '\'' ∉ inside ∧
        quote.Passes inside stop ∧ stop.rest = [] ∧
        readStyleText c =
          stop.fail .unclosedQuoteInArgumentStyle (stop.since quote.position)) := by
  have hscan := styleScan c.rest
  have hend : c.Passes c.rest (c.advance c.rest.length) :=
    Cursor.passes_advance (List.append_nil _).symm
  have hover : (c.advance c.rest.length).rest = [] := by simp
  refine ⟨fun n ends first => ?_, fun never even => ?_, fun never odd => ?_⟩
  · have hlength : n ≤ c.rest.length :=
      Nat.le_of_lt (List.getElem?_eq_some_iff.mp ends.brace).1
    have hpasses := Cursor.passes_advance (List.take_append_drop n c.rest).symm
    rw [List.length_take_of_le hlength] at hpasses
    refine ⟨c.advance n, ?_, hpasses, ?_⟩
    · rw [readStyleText, hscan.eq_first ends first]
    · rw [Cursor.rest_advance, List.head?_drop]
      exact ends.brace
  · refine ⟨_, ?_, hend, hover⟩
    rw [readStyleText, hscan.eq_length never even]
    simp only [List.take_length]
  · obtain ⟨front, inside, hsplit, hlast, herror⟩ := hscan.exists_eq_error never odd
    have hquote : c.rest = (front ++ ['\'']) ++ inside := by
      rw [hsplit, List.append_assoc, List.singleton_append]
    have hinside := Cursor.rest_advance_append hquote
    have hstop : c.advance c.rest.length =
        (c.advance (front ++ ['\'']).length).advance inside.length := by
      rw [Cursor.advance_advance, hquote, List.length_append]
    refine ⟨front, inside, _, _, Cursor.passes_advance hquote, hlast, ⟨?_, hstop⟩, hover, ?_⟩
    · rw [hinside, hover, List.append_nil]
    · rw [readStyleText, herror, List.length_append, List.length_singleton]

/-- Quoted braces do not count and a pair of braces is passed, so the third closing brace
is the first to end the style.  Behind an odd number of apostrophes none does, and reading
fails at what follows the last of them. -/
theorem readStyleText_exact_quoted :
    (∃ stop, readStyleText (.start "a\x7b'\x7d'\x7db\x7dc\x7d".toList) =
      .ok ("a\x7b'\x7d'\x7db".toList, stop)) ∧
    ∃ f, readStyleText (.start "'a''b\x7d".toList) = .error f ∧
      f.kind = .unclosedQuoteInArgumentStyle ∧ f.location = ⟨⟨4, 1, 5⟩, ⟨6, 1, 7⟩⟩ := by
  constructor
  · obtain ⟨stop, hread, -⟩ :=
      (readStyleText_exact (.start "a\x7b'\x7d'\x7db\x7dc\x7d".toList)).1 7
        (by decide) (by decide)
    exact ⟨stop, hread⟩
  · obtain ⟨front, inside, quote, stop, -, -, -, -, hread⟩ :=
      (readStyleText_exact (.start "'a''b\x7d".toList)).2.2
        (never_of_forall_lt (by decide)) (by decide)
    have hfailure : readStyleText (.start "'a''b\x7d".toList) =
        .error ⟨.unclosedQuoteInArgumentStyle, ⟨⟨4, 1, 5⟩, ⟨6, 1, 7⟩⟩, none, ⟨6, 1, 7⟩⟩ := rfl
    exact ⟨_, hread, rfl, congrArg Failure.location (Except.error.inj (hread.symm.trans hfailure))⟩

end MessagePattern
