/-
# Integers, written and read

An integer in a message is a sign and digits.  `IsSafeNumeral` names the texts
that are read as one, and both directions are stated for any such text: the
offsets of plurals are written in decimal, while exact selectors keep the
spelling that they were read with.
-/

import MessagePattern.Proofs.Cursor
import MessagePattern.Reader.Integer

namespace MessagePattern

/-- An optional sign in front of digits that denote a safe integer. -/
structure IsSafeNumeral (text : List Char) : Prop where
  nonempty : (splitSign text).2 ≠ []
  digits : (splitSign text).2.all Char.isDigit
  safe : digitsValue (splitSign text).2 ≤ maxSafeInteger

/-- The integer that a numeral denotes. -/
def numeralValue (text : List Char) : Int :=
  if (splitSign text).1 then -(digitsValue (splitSign text).2 : Int)
  else digitsValue (splitSign text).2

/-- Taking off a sign leaves what follows alone. -/
theorem splitSign_append {text : List Char} (tail : List Char) (h : (splitSign text).2 ≠ []) :
    splitSign (text ++ tail) = ((splitSign text).1, (splitSign text).2 ++ tail) := by
  unfold splitSign at h ⊢
  split at h
  · simp
  · simp
  · next hplus hminus =>
      obtain ⟨c, text, rfl⟩ := List.exists_cons_of_ne_nil h
      have hcplus : c ≠ '+' := fun hc => hplus text (by rw [hc])
      have hcminus : c ≠ '-' := fun hc => hminus text (by rw [hc])
      simp [hcplus, hcminus]

/-- Digits have no sign. -/
theorem splitSign_of_digits {digits : List Char} (hne : digits ≠ [])
    (h : digits.all Char.isDigit) : splitSign digits = (false, digits) := by
  obtain ⟨c, digits, rfl⟩ := List.exists_cons_of_ne_nil hne
  have hc : c.isDigit := List.all_eq_true.mp h c List.mem_cons_self
  have hplus : c ≠ '+' := by
    rintro rfl
    revert hc
    decide
  have hminus : c ≠ '-' := by
    rintro rfl
    revert hc
    decide
  simp [splitSign, hplus, hminus]

/-- The sign of a text, which stands in front of any other digits as well. -/
theorem exists_sign (text : List Char) :
    ∃ sign, text = sign ++ (splitSign text).2 ∧
      ∀ digits, digits ≠ [] → digits.all Char.isDigit →
        splitSign (sign ++ digits) = ((splitSign text).1, digits) := by
  unfold splitSign
  split
  · exact ⟨['+'], rfl, fun digits _ _ => rfl⟩
  · exact ⟨['-'], rfl, fun digits _ _ => rfl⟩
  · exact ⟨[], rfl, fun digits hne h => splitSign_of_digits hne h⟩

/-- A safe numeral is read up to where its digits end. -/
theorem readInteger_of_rest {text tail : List Char} {c : Cursor} (absent excessive : ErrorKind)
    (h : c.rest = text ++ tail) (hnumeral : IsSafeNumeral text)
    (hstop : tail.head?.any Char.isDigit = false) :
    ∃ d, readInteger absent excessive c = .ok (numeralValue text, d) ∧ d.rest = tail := by
  obtain ⟨sign, hsign, -⟩ := exists_sign text
  have hsplit : splitSign c.rest = ((splitSign text).1, (splitSign text).2 ++ tail) := by
    rw [h, splitSign_append tail hnumeral.nonempty]
  have htake : ((splitSign text).2 ++ tail).takeWhile Char.isDigit = (splitSign text).2 :=
    Cursor.takeWhile_append_of_stop hnumeral.digits hstop
  have hlength : c.rest.length - ((splitSign text).2 ++ tail).length +
      (splitSign text).2.length = text.length := by
    have := congrArg List.length hsign
    simp only [h, List.length_append] at this ⊢
    omega
  refine ⟨c.advance text.length, ?_, Cursor.rest_advance_append h⟩
  have hempty : (splitSign text).2.isEmpty = false := by simpa using hnumeral.nonempty
  have hsafe : ¬ maxSafeInteger < digitsValue (splitSign text).2 := Nat.not_lt.mpr hnumeral.safe
  simp only [readInteger, hsplit, htake, hlength, hempty, if_neg hsafe, Bool.false_eq_true,
    if_false, numeralValue]

/-- What is read as an integer is a safe numeral. -/
theorem readInteger_eq_ok {absent excessive : ErrorKind} {c d : Cursor} {n : Int}
    (h : readInteger absent excessive c = .ok (n, d)) :
    ∃ text, c.rest = text ++ d.rest ∧ IsSafeNumeral text ∧ n = numeralValue text ∧
      d = c.advance text.length := by
  obtain ⟨sign, hsign, hsplit⟩ := exists_sign c.rest
  generalize hunsigned : (splitSign c.rest).2 = unsigned at hsign
  have hdigits := List.takeWhile_append_dropWhile (p := Char.isDigit) (l := unsigned)
  unfold readInteger at h
  simp only [hunsigned] at h
  split at h
  · cases h
  split at h
  · cases h
  next hempty hsafe =>
    generalize hrun : unsigned.takeWhile Char.isDigit = run at *
    have hrunNe : run ≠ [] := by simpa using hempty
    have hrunDigits : run.all Char.isDigit := hrun ▸ List.all_takeWhile
    have hnumeral := hsplit run hrunNe hrunDigits
    have hlength : c.rest.length - unsigned.length + run.length = (sign ++ run).length := by
      have := congrArg List.length hsign
      rw [List.length_append] at this ⊢
      omega
    have hrest : c.rest = (sign ++ run) ++ unsigned.dropWhile Char.isDigit := by
      rw [List.append_assoc, hdigits]
      exact hsign
    rw [hlength] at h
    cases h
    refine ⟨sign ++ run, ?_, ?_, ?_, rfl⟩
    · rw [Cursor.rest_advance_append hrest]
      exact hrest
    · exact ⟨by rwa [hnumeral], by rwa [hnumeral], by rw [hnumeral]; exact Nat.not_lt.mp hsafe⟩
    · simp only [numeralValue, hnumeral]

/-- Behind an integer that was read there is no further digit. -/
theorem head?_of_readInteger {absent excessive : ErrorKind} {c d : Cursor} {n : Int}
    (h : readInteger absent excessive c = .ok (n, d)) : d.rest.head?.any Char.isDigit = false := by
  obtain ⟨sign, hsign, -⟩ := exists_sign c.rest
  generalize hunsigned : (splitSign c.rest).2 = unsigned at hsign
  have hrest : (c.advance (c.rest.length - unsigned.length +
      (unsigned.takeWhile Char.isDigit).length)).rest = unsigned.dropWhile Char.isDigit := by
    have hlength : c.rest.length - unsigned.length + (unsigned.takeWhile Char.isDigit).length =
        (sign ++ unsigned.takeWhile Char.isDigit).length := by
      rw [hsign, List.length_append, List.length_append, Nat.add_sub_cancel]
    rw [hlength]
    apply Cursor.rest_advance_append
    rw [List.append_assoc, List.takeWhile_append_dropWhile]
    exact hsign
  unfold readInteger at h
  simp only [hunsigned] at h
  split at h
  · cases h
  split at h
  · cases h
  · cases h
    rw [hrest]
    exact Cursor.head?_dropWhile Char.isDigit unsigned

theorem digitsValue_eq_ofDigitChars (digits : List Char) :
    digitsValue digits = Nat.ofDigitChars 10 digits 0 := by
  simp only [digitsValue, Nat.ofDigitChars_eq_foldl, Nat.mul_comm 10]

theorem splitSign_renderInteger (n : Int) :
    splitSign (renderInteger n) = (decide (n < 0), Nat.toDigits 10 n.natAbs) := by
  have hdigits : (Nat.toDigits 10 n.natAbs).all Char.isDigit :=
    List.all_eq_true.mpr fun c hc => Nat.isDigit_of_mem_toDigits (by decide) (by decide) hc
  unfold renderInteger
  by_cases hneg : n < 0
  · simp [hneg, splitSign]
  · simp only [hneg, if_false, List.nil_append, decide_false]
    exact splitSign_of_digits Nat.toDigits_ne_nil hdigits

/-- An integer that is written is a numeral that denotes it. -/
theorem numeralValue_renderInteger (n : Int) : numeralValue (renderInteger n) = n := by
  simp only [numeralValue, splitSign_renderInteger, digitsValue_eq_ofDigitChars,
    Nat.ofDigitChars_ten_toDigits, decide_eq_true_eq]
  split <;> omega

theorem isSafeNumeral_renderInteger {n : Int} (h : n.natAbs ≤ maxSafeInteger) :
    IsSafeNumeral (renderInteger n) where
  nonempty := by
    rw [splitSign_renderInteger]
    exact Nat.toDigits_ne_nil
  digits := by
    rw [splitSign_renderInteger]
    exact List.all_eq_true.mpr fun c hc => Nat.isDigit_of_mem_toDigits (by decide) (by decide) hc
  safe := by
    rw [splitSign_renderInteger, digitsValue_eq_ofDigitChars, Nat.ofDigitChars_ten_toDigits]
    exact h

end MessagePattern
