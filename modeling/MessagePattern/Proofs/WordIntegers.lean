/-
# Integers in machine words

`readInteger` takes the run of digits as a whole and counts without bound.  A machine
passes sign and digits one scalar at a time and keeps the value in a word of 64 bits.
Every product and every sum is checked, and from the first one on that is no word there
is no value any more.

The two agree on every text.  After any number of digits the machine has their exact
value or, if that is no word, none; a value only ever grows, so what was lost would not
have been safe again.  Values that are words without being safe are told apart at the end.
-/

import MessagePattern.Proofs.SafeInteger

namespace MessagePattern

/-! ## Words -/

/-- The word that denotes an integer, if there is one. -/
def word? (n : Int) : Option Int64 :=
  if Int64.minValue.toInt ≤ n ∧ n ≤ Int64.maxValue.toInt then some (.ofInt n) else none

/-- The product of two words, unless it is no word. -/
def checkedMul (a b : Int64) : Option Int64 := word? (a.toInt * b.toInt)

/-- The sum of two words, unless it is no word. -/
def checkedAdd (a b : Int64) : Option Int64 := word? (a.toInt + b.toInt)

theorem word?_eq_some_iff {n : Int} {w : Int64} : word? n = some w ↔ w.toInt = n := by
  have hlow := w.le_toInt
  have hhigh := w.toInt_lt
  unfold word?
  rw [Int64.toInt_minValue, Int64.toInt_maxValue]
  constructor
  · intro h
    split at h
    · next hrange =>
        cases h
        exact Int64.toInt_ofInt_of_le hrange.1 (by omega)
    · cases h
  · rintro rfl
    rw [if_pos ⟨hlow, by omega⟩, Int64.ofInt_toInt]

theorem word?_natCast_eq_none_iff {n : Nat} : word? n = none ↔ Int64.maxValue.toInt < n := by
  simp [word?]

/-- One more digit takes the value to the next one, and no value to none: the next one
would be greater still. -/
theorem word?_next (n : Nat) {digit : Int64} (hdigit : 0 ≤ digit.toInt) :
    ((word? n).bind (checkedMul · 10)).bind (checkedAdd · digit) =
      word? (n * 10 + digit.toInt) := by
  have hten : (10 : Int64).toInt = 10 := rfl
  obtain ⟨d, hd⟩ := Int.eq_ofNat_of_zero_le hdigit
  rw [hd]
  norm_cast
  cases hvalue : word? n with
  | none =>
      have hlarge := word?_natCast_eq_none_iff.mp hvalue
      exact (word?_natCast_eq_none_iff.mpr (by omega)).symm
  | some w =>
      have hw := word?_eq_some_iff.mp hvalue
      rw [Option.bind_some, checkedMul, hw, hten]
      norm_cast
      cases hproduct : word? (n * 10 : Nat) with
      | none =>
          have hlarge := word?_natCast_eq_none_iff.mp hproduct
          exact (word?_natCast_eq_none_iff.mpr (by omega)).symm
      | some p =>
          have hp := word?_eq_some_iff.mp hproduct
          rw [Option.bind_some, checkedAdd, hp, hd]
          norm_cast

/-! ## Reading -/

/-- The word for a decimal digit. -/
def digit? (c : Char) : Option Int64 :=
  if c.isDigit then some (.ofNat (c.toNat - '0'.toNat)) else none

/-- What is known while digits are being passed. -/
structure Tally where
  /-- Whether there was a digit. -/
  found : Bool
  /-- The value of the digits, as long as it was a word. -/
  value : Option Int64
  cursor : Cursor

namespace Tally

/-- In front of the first digit. -/
def start (c : Cursor) : Tally := ⟨false, some 0, c⟩

/-- Passes one digit. -/
def next (t : Tally) (digit : Int64) : Tally :=
  ⟨true, (t.value.bind (checkedMul · 10)).bind (checkedAdd · digit), t.cursor.bump⟩

/-- Passes digits as long as there are any in the text ahead. -/
def run : List Char → Tally → Tally
  | [], t => t
  | c :: text, t =>
    match digit? c with
    | none => t
    | some digit => run text (t.next digit)

end Tally

/-- Moves past a sign, if there is one, and says whether it was a minus. -/
def Cursor.skipSign (c : Cursor) : Bool × Cursor :=
  match c.skip? ['+'] with
  | some d => (false, d)
  | none =>
    match c.skip? ['-'] with
    | some d => (true, d)
    | none => (false, c)

/-- Reads an integer into a word. -/
def readIntegerInWords (absent excessive : ErrorKind) (c : Cursor) :
    Except Failure (Int64 × Cursor) :=
  let (negative, first) := c.skipSign
  let t := (Tally.start first).run first.rest
  let location := t.cursor.since c.position
  if !t.found then t.cursor.fail absent location
  else
    match t.value.filter (· ≤ .ofNat maxSafeInteger) with
    | some w => .ok (if negative then -w else w, t.cursor)
    | none => t.cursor.fail excessive location

/-! ## What is known behind the digits -/

theorem toInt_of_digit? {ch : Char} {digit : Int64} (h : digit? ch = some digit) :
    ch.isDigit ∧ digit.toInt = (ch.toNat - '0'.toNat : Nat) := by
  unfold digit? at h
  split at h
  · next hdigit =>
      cases h
      have hsmall : ch.toNat < 2 ^ 32 := ch.val.toNat_lt
      exact ⟨hdigit, Int64.toInt_ofNat_of_lt (by omega)⟩
  · cases h

theorem digitsValue_concat (digits : List Char) (ch : Char) :
    digitsValue (digits ++ [ch]) = digitsValue digits * 10 + (ch.toNat - '0'.toNat) := by
  simp [digitsValue]

namespace Tally

/-- Exactly `digits` have been passed from `c` on, and the value is theirs if it is a
word. -/
structure Counts (c : Cursor) (digits : List Char) (t : Tally) : Prop where
  found : t.found = !digits.isEmpty
  value : t.value = word? (digitsValue digits)
  cursor : t.cursor = c.advance digits.length

theorem counts_start (c : Cursor) : (start c).Counts c [] := ⟨rfl, rfl, rfl⟩

theorem Counts.next {c : Cursor} {digits : List Char} {t : Tally} {ch : Char} {digit : Int64}
    (h : t.Counts c digits) (hdigit : digit? ch = some digit) :
    (t.next digit).Counts c (digits ++ [ch]) where
  found := by simp [Tally.next]
  value := by
    obtain ⟨-, hvalue⟩ := toInt_of_digit? hdigit
    rw [Tally.next, h.value, word?_next _ (by omega), hvalue, digitsValue_concat]
    norm_cast
  cursor := by
    rw [Tally.next, h.cursor, List.length_append, ← Cursor.advance_advance]
    rfl

/-- A run passes the longest run of digits that is ahead. -/
theorem Counts.run {c : Cursor} {digits : List Char} {t : Tally} (h : t.Counts c digits)
    (text : List Char) : (t.run text).Counts c (digits ++ text.takeWhile Char.isDigit) := by
  induction text generalizing digits t with
  | nil => simpa [Tally.run] using h
  | cons ch text ih =>
      rw [Tally.run]
      cases hdigit : digit? ch with
      | none =>
          have hnot : ¬ ch.isDigit := by
            intro his
            rw [digit?, if_pos his] at hdigit
            cases hdigit
          rw [List.takeWhile_cons_of_neg hnot, List.append_nil]
          exact h
      | some digit =>
          have hrun := ih (h.next hdigit)
          rwa [List.append_assoc, List.singleton_append,
            ← List.takeWhile_cons_of_pos (toInt_of_digit? hdigit).1] at hrun

end Tally

/-! ## Signs and digits -/

/-- A text is an optional sign, the longest run of digits behind it and what follows. -/
structure SignedDigits (text sign digits tail : List Char) : Prop where
  split : text = sign ++ digits ++ tail
  sign : sign = ['+'] ∨ sign = ['-'] ∨
    sign = [] ∧ text.head? ≠ some '+' ∧ text.head? ≠ some '-'
  digits : digits.all Char.isDigit
  longest : tail.head?.any Char.isDigit = false

theorem exists_signedDigits (text : List Char) :
    ∃ sign digits tail, SignedDigits text sign digits tail := by
  have hsplit (sign behind : List Char) (htext : text = sign ++ behind)
      (hsign : sign = ['+'] ∨ sign = ['-'] ∨
        sign = [] ∧ text.head? ≠ some '+' ∧ text.head? ≠ some '-') :
      SignedDigits text sign (behind.takeWhile Char.isDigit) (behind.dropWhile Char.isDigit) :=
    ⟨by rw [List.append_assoc, List.takeWhile_append_dropWhile, htext], hsign,
      List.all_takeWhile, Cursor.head?_dropWhile Char.isDigit behind⟩
  by_cases hplus : text.head? = some '+'
  · obtain ⟨behind, rfl⟩ := List.head?_eq_some_iff.mp hplus
    exact ⟨_, _, _, hsplit ['+'] behind rfl (.inl rfl)⟩
  by_cases hminus : text.head? = some '-'
  · obtain ⟨behind, rfl⟩ := List.head?_eq_some_iff.mp hminus
    exact ⟨_, _, _, hsplit ['-'] behind rfl (.inr (.inl rfl))⟩
  · exact ⟨_, _, _, hsplit [] text rfl (.inr (.inr ⟨rfl, hplus, hminus⟩))⟩

namespace SignedDigits

variable {text sign digits tail : List Char} {c : Cursor}

theorem splitSign_eq (h : SignedDigits text sign digits tail) :
    splitSign text = (decide (sign = ['-']), digits ++ tail) := by
  have hsplit := h.split
  rcases h.sign with rfl | rfl | ⟨rfl, hplus, hminus⟩
  · rw [hsplit]
    rfl
  · rw [hsplit]
    rfl
  · rw [List.nil_append] at hsplit
    rw [← hsplit]
    cases text with
    | nil => rfl
    | cons ch rest =>
        simp only [List.head?_cons, ne_eq, Option.some.injEq] at hplus hminus
        simp [splitSign, hplus, hminus]

theorem skipSign_eq (h : SignedDigits c.rest sign digits tail) :
    c.skipSign = (decide (sign = ['-']), c.advance sign.length) := by
  have hsplit := h.split
  unfold Cursor.skipSign Cursor.skip?
  rcases h.sign with rfl | rfl | ⟨rfl, hplus, hminus⟩
  · simp [hsplit]
  · simp [hsplit]
  · cases hrest : c.rest with
    | nil => rfl
    | cons ch rest =>
        simp only [hrest, List.head?_cons, ne_eq, Option.some.injEq] at hplus hminus
        simp [Ne.symm hplus, Ne.symm hminus]

theorem takeWhile_eq (h : SignedDigits text sign digits tail) :
    (digits ++ tail).takeWhile Char.isDigit = digits :=
  Cursor.takeWhile_append_of_stop h.digits h.longest

end SignedDigits

/-! ## Agreement -/

section Agreement

variable {absent excessive : ErrorKind} {c : Cursor} {sign digits tail : List Char}

/-- What is read of an optional sign and the digits behind it. -/
theorem readInteger_eq (h : SignedDigits c.rest sign digits tail) :
    readInteger absent excessive c =
      let stop := c.advance (sign ++ digits).length
      if digits = [] then stop.fail absent (stop.since c.position)
      else if digitsValue digits ≤ maxSafeInteger then
        .ok (if sign = ['-'] then -(digitsValue digits : Int) else digitsValue digits, stop)
      else stop.fail excessive (stop.since c.position) := by
  have hlength : c.rest.length - (digits ++ tail).length + digits.length =
      (sign ++ digits).length := by
    rw [h.split]
    simp only [List.length_append]
    omega
  simp only [readInteger, h.splitSign_eq, h.takeWhile_eq, hlength, List.isEmpty_iff,
    decide_eq_true_eq]
  split
  · rfl
  · simp only [← Nat.not_le, ite_not]

/-- The test in words lets exactly the safe values pass. -/
theorem filter_word? (n : Nat) :
    (word? n).filter (· ≤ .ofNat maxSafeInteger) =
      if n ≤ maxSafeInteger then some (.ofNat n) else none := by
  have hbound : (Int64.ofNat maxSafeInteger).toInt = maxSafeInteger := rfl
  have hsafe : maxSafeInteger < 2 ^ 63 := by decide
  cases hword : word? n with
  | none =>
      have hlarge := word?_natCast_eq_none_iff.mp hword
      rw [Int64.toInt_maxValue] at hlarge
      rw [if_neg (by omega)]
      rfl
  | some w =>
      have hw := word?_eq_some_iff.mp hword
      have hle : w ≤ .ofNat maxSafeInteger ↔ n ≤ maxSafeInteger := by
        rw [Int64.le_iff_toInt_le, hw, hbound]
        exact Int.ofNat_le
      simp only [Option.filter_some, decide_eq_true_eq, hle]
      split
      · next hn =>
          rw [← Int64.toInt_inj.mp (hw.trans (Int64.toInt_ofNat_of_lt (by omega)).symm)]
      · rfl

/-- A safe value has a sign put in front of it without leaving the words. -/
theorem toInt_signed {n : Nat} (hn : n ≤ maxSafeInteger) (negative : Bool) :
    (if negative then -Int64.ofNat n else .ofNat n).toInt =
      if negative then -(n : Int) else n := by
  have hsafe : maxSafeInteger < 2 ^ 63 := by decide
  cases negative with
  | false => exact Int64.toInt_ofNat_of_lt (by omega)
  | true =>
      have hneg : -Int64.ofNat n = .ofInt (-n) := by
        rw [Int64.ofInt_neg]
        rfl
      rw [if_pos rfl, if_pos rfl, hneg]
      exact Int64.toInt_ofInt_of_le (by omega) (by omega)

/-- Behind the digits the loop knows that there were some, and what they denote. -/
theorem counts_run (h : SignedDigits c.rest sign digits tail) :
    let first := c.advance sign.length
    ((Tally.start first).run first.rest).Counts first digits := by
  have hrest : (c.advance sign.length).rest = digits ++ tail :=
    Cursor.rest_advance_append (by rw [h.split, List.append_assoc])
  have hcounts := (Tally.counts_start (c.advance sign.length)).run (digits ++ tail)
  rw [h.takeWhile_eq, List.nil_append] at hcounts
  rwa [← hrest] at hcounts

/-- In words the same is read. -/
theorem readIntegerInWords_eq (h : SignedDigits c.rest sign digits tail) :
    (fun (w, d) => (w.toInt, d)) <$> readIntegerInWords absent excessive c =
      readInteger absent excessive c := by
  obtain ⟨hfound, hvalue, hcursor⟩ := counts_run h
  rw [Cursor.advance_advance, ← List.length_append] at hcursor
  rw [readInteger_eq h]
  simp only [readIntegerInWords, h.skipSign_eq, hfound, hvalue, hcursor, filter_word?]
  by_cases hnil : digits = []
  · simp [hnil, Cursor.fail, Functor.map, Except.map]
  by_cases hsafe : digitsValue digits ≤ maxSafeInteger
  · have hsigned := toInt_signed hsafe (decide (sign = ['-']))
    simp only [decide_eq_true_eq] at hsigned
    simp [hnil, hsafe, Functor.map, Except.map, hsigned]
  · simp [hnil, hsafe, Cursor.fail, Functor.map, Except.map]

/-- What is known in front of any of the digits. -/
theorem value_run {before after : List Char} (h : SignedDigits c.rest sign digits tail)
    (hdigits : digits = before ++ after) (first : Cursor) :
    ((Tally.start first).run before).value = word? (digitsValue before) := by
  have hbefore : before.all Char.isDigit := by
    have hall := h.digits
    rw [hdigits, List.all_append, Bool.and_eq_true] at hall
    exact hall.1
  have hcounts := (Tally.counts_start first).run before
  have hwhole : (before ++ []).takeWhile Char.isDigit = before :=
    Cursor.takeWhile_append_of_stop hbefore rfl
  rw [List.append_nil] at hwhole
  rw [hwhole] at hcounts
  exact hcounts.value

end Agreement

/-- Reading an optional sign and the digits behind it, from `c` to `stop`. -/
structure IntegerRead (absent excessive : ErrorKind) (c stop : Cursor)
    (sign digits : List Char) : Prop where
  /-- There are three outcomes, and in each of them the cursor comes to rest at `stop`. -/
  outcome : readInteger absent excessive c =
    if digits = [] then stop.fail absent (stop.since c.position)
    else if digitsValue digits ≤ maxSafeInteger then
      .ok (if sign = ['-'] then -(digitsValue digits : Int) else digitsValue digits, stop)
    else stop.fail excessive (stop.since c.position)
  absent_iff : absent ≠ excessive →
    (readInteger absent excessive c = stop.fail absent (stop.since c.position) ↔ digits = [])
  ok_iff : readInteger absent excessive c =
      .ok (if sign = ['-'] then -(digitsValue digits : Int) else digitsValue digits, stop) ↔
    digits ≠ [] ∧ digitsValue digits ≤ maxSafeInteger
  excessive_iff : absent ≠ excessive →
    (readInteger absent excessive c = stop.fail excessive (stop.since c.position) ↔
      digits ≠ [] ∧ maxSafeInteger < digitsValue digits)
  /-- A machine that reads into words comes to the same outcome. -/
  words : (fun (w, d) => (w.toInt, d)) <$> readIntegerInWords absent excessive c =
    readInteger absent excessive c
  /-- At no digit does it have another value than the exact one, or lose one that is a
  word. -/
  latched : ∀ before after, digits = before ++ after →
    ((Tally.start (c.advance sign.length)).run before).value = word? (digitsValue before)

/-- Every text is in one way an optional sign, digits and what follows.  No digits, a safe
value and a greater one are the three outcomes of reading it, the cursor is left behind
sign and digits, and in words of 64 bits nothing overflows unnoticed. -/
theorem readInteger_exact (absent excessive : ErrorKind) (c : Cursor) :
    (∃ sign digits tail, SignedDigits c.rest sign digits tail) ∧
    ∀ sign digits tail, SignedDigits c.rest sign digits tail →
      ∃ stop, c.Passes (sign ++ digits) stop ∧ stop.rest = tail ∧
        IntegerRead absent excessive c stop sign digits := by
  refine ⟨exists_signedDigits c.rest, fun sign digits tail h => ?_⟩
  have hpasses := Cursor.passes_advance h.split
  refine ⟨_, hpasses, List.append_cancel_left (hpasses.rest.symm.trans h.split), ?_⟩
  generalize hstop : c.advance (sign ++ digits).length = stop
  have houtcome := @readInteger_eq absent excessive c sign digits tail h
  simp only [hstop] at houtcome
  have hfail {kind kind' : ErrorKind} (hne : kind ≠ kind') :
      (stop.fail kind (stop.since c.position) : Except Failure (Int × Cursor)) ≠
        stop.fail kind' (stop.since c.position) := by
    simpa [Cursor.fail] using hne
  refine ⟨houtcome, fun hne => ?_, ?_, fun hne => ?_, readIntegerInWords_eq h,
    fun before after hdigits => value_run h hdigits _⟩
  · rw [houtcome]
    split
    · next hnil => exact iff_of_true rfl hnil
    next hsome =>
    split
    · exact iff_of_false nofun hsome
    · exact iff_of_false (hfail hne.symm) hsome
  · rw [houtcome]
    split
    · next hnil => exact iff_of_false nofun fun hsafe => hsafe.1 hnil
    next hsome =>
    split
    · next hsafe => exact iff_of_true rfl ⟨hsome, hsafe⟩
    · next hunsafe => exact iff_of_false nofun fun hsafe => hunsafe hsafe.2
  · rw [houtcome]
    split
    · next hnil => exact iff_of_false (hfail hne) fun hunsafe => hunsafe.1 hnil
    next hsome =>
    split
    · next hsafe => exact iff_of_false nofun fun hunsafe => Nat.not_lt.mpr hsafe hunsafe.2
    · next hunsafe => exact iff_of_true rfl ⟨hsome, Nat.not_le.mp hunsafe⟩

/-- Leading zeros do not count, so nineteen digits may be safe; twenty digits, or the first
value that is no word, are refused with everything passed all the same. -/
theorem readInteger_exact_at_limits :
    (∃ stop : Cursor, stop.rest = [' '] ∧
      readInteger .expectPluralArgumentOffsetValue .invalidPluralArgumentOffsetValue
        (.start "-0009007199254740991 ".toList) = .ok (-9007199254740991, stop)) ∧
    ∃ stop : Cursor, stop.rest = [] ∧
      readInteger .expectPluralArgumentOffsetValue .invalidPluralArgumentOffsetValue
          (.start "+9223372036854775808".toList) =
        stop.fail .invalidPluralArgumentOffsetValue (stop.since .start) := by
  constructor
  · have h : SignedDigits "-0009007199254740991 ".toList ['-'] "0009007199254740991".toList [' '] :=
      ⟨rfl, .inr (.inl rfl), by decide, by decide⟩
    obtain ⟨stop, -, hrest, hread⟩ := (readInteger_exact .expectPluralArgumentOffsetValue
      .invalidPluralArgumentOffsetValue (.start "-0009007199254740991 ".toList)).2 _ _ _ h
    exact ⟨stop, hrest, hread.ok_iff.mpr ⟨by decide, by decide⟩⟩
  · have h : SignedDigits "+9223372036854775808".toList ['+'] "9223372036854775808".toList [] :=
      ⟨rfl, .inl rfl, by decide, by decide⟩
    obtain ⟨stop, -, hrest, hread⟩ := (readInteger_exact .expectPluralArgumentOffsetValue
      .invalidPluralArgumentOffsetValue (.start "+9223372036854775808".toList)).2 _ _ _ h
    exact ⟨stop, hrest, (hread.excessive_iff (by decide)).mpr ⟨by decide, by decide⟩⟩

end MessagePattern
