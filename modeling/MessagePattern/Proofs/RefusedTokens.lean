/-
# Which number tokens are refused

`NumberToken.Refused` lists the bad tokens, each with what is reported of it.  Its
forms of stems and options are stated in their own right, as runs of characters one
behind the other, and the readers are shown to recognise exactly these forms.

No two forms begin alike, and no word that is looked up begins as one of them; so
the order in which a stem is tried decides nothing, and a token is refused exactly
if it is bad.  Of a list of tokens the first bad one is reported.
-/

import MessagePattern.Proofs.Cursor
import MessagePattern.Proofs.LayeredSettings

namespace MessagePattern

namespace NumberSkeleton

/-! ## Forms of stems and options -/

/-- One or more copies of a character. -/
def Repeats (d : Char) (text : List Char) : Prop := ∃ n, 0 < n ∧ text = List.replicate n d

/-- The stems of fraction precision: `.00`, `.00*`, `.00+`, `.##` and `.00##`. -/
inductive IsFractionStem : List Char → Prop
  | zeros {zeros mark : List Char} (digits : Repeats '0' zeros)
      (bound : mark = [] ∨ mark = ['*'] ∨ mark = ['+']) : IsFractionStem ('.' :: (zeros ++ mark))
  | signs {signs : List Char} (digits : Repeats '#' signs) : IsFractionStem ('.' :: signs)
  | both {zeros signs : List Char} (digits : Repeats '0' zeros) (more : Repeats '#' signs) :
      IsFractionStem ('.' :: (zeros ++ signs))

/-- Significant digits such as `@@@`, `@@+` and `@@##`, with a letter for the priority
behind them or none. -/
inductive IsSignificantDigits : List Char → Prop
  | mk {ats bound priority : List Char} (digits : Repeats '@' ats)
      (more : bound = [] ∨ bound = ['+'] ∨ Repeats '#' bound)
      (letter : priority = [] ∨ priority = ['r'] ∨ priority = ['s']) :
      IsSignificantDigits (ats ++ (bound ++ priority))

/-- Concise notations such as `E0`, `EE00` and `E+!0`. -/
inductive IsConciseNotation : List Char → Prop
  | mk {letters sign zeros : List Char} (form : letters = ['E'] ∨ letters = ['E', 'E'])
      (display : sign = [] ∨ sign = ['+', '!'] ∨ sign = ['+', '?']) (digits : Repeats '0' zeros) :
      IsConciseNotation (letters ++ (sign ++ zeros))

/-- Integer widths that bound the digits from below only, such as `*00`. -/
def IsLeastWidth (text : List Char) : Prop := ∃ zeros, text = '*' :: zeros ∧ Repeats '0' zeros

/-- Integer widths that bound the digits from both sides, such as `##00`. -/
def IsMostWidth (text : List Char) : Prop :=
  ∃ signs zeros, text = signs ++ zeros ∧ Repeats '#' signs ∧ Repeats '0' zeros

theorem isRunOf_iff {d : Char} {text : List Char} : isRunOf d text = true ↔ Repeats d text := by
  rw [isRunOf, Bool.and_eq_true, Bool.not_eq_true', List.isEmpty_eq_false_iff, List.all_eq_true]
  simp only [beq_iff_eq]
  constructor
  · rintro ⟨hne, hall⟩
    exact ⟨text.length, List.length_pos_iff.mpr hne, List.eq_replicate_of_mem hall⟩
  · rintro ⟨n, hn, rfl⟩
    refine ⟨by simpa using Nat.ne_of_gt hn, fun c hc => List.eq_of_mem_replicate hc⟩

instance (d : Char) (text : List Char) : Decidable (Repeats d text) :=
  decidable_of_iff _ isRunOf_iff

theorem Repeats.head? {d : Char} {text : List Char} (h : Repeats d text) :
    text.head? = some d := by
  obtain ⟨n, hn, rfl⟩ := h
  simp [List.head?_replicate, Nat.ne_of_gt hn]

/-- A run of one character begins with no other one. -/
theorem Repeats.head?_ne {d c : Char} {text : List Char} (h : Repeats d text) (hne : d ≠ c) :
    text.head? ≠ some c := by
  simpa [h.head?] using hne

theorem IsFractionStem.head? {text : List Char} (h : IsFractionStem text) :
    text.head? = some '.' := by
  cases h <;> rfl

theorem IsFractionStem.length_gt {text : List Char} (h : IsFractionStem text) :
    1 < text.length := by
  have hpos {d : Char} {run : List Char} (hrun : Repeats d run) : 0 < run.length := by
    obtain ⟨n, hn, rfl⟩ := hrun
    simpa using hn
  cases h with
  | zeros digits _ | both digits _ | signs digits =>
      have := hpos digits
      simp only [List.length_cons, List.length_append]
      omega

theorem IsSignificantDigits.head? {text : List Char} (h : IsSignificantDigits text) :
    text.head? = some '@' := by
  obtain ⟨digits, -, -⟩ := h
  simp [List.head?_append, digits.head?]

/-- Every text begins with a run of a character, perhaps empty, that ends where the
text goes on with another one. -/
theorem exists_run (d : Char) (text : List Char) :
    ∃ n rest, text = List.replicate n d ++ rest ∧ rest.head? ≠ some d := by
  refine ⟨(text.takeWhile (· == d)).length, text.dropWhile (· == d), ?_, ?_⟩
  · have hrun : text.takeWhile (· == d) = List.replicate (text.takeWhile (· == d)).length d :=
      List.eq_replicate_of_mem fun c hc => by
        simpa using List.all_eq_true.mp List.all_takeWhile c hc
    rw [← hrun, List.takeWhile_append_dropWhile]
  · intro hhead
    have := List.head?_dropWhile_not (· == d) text
    rw [hhead] at this
    simp at this

theorem takeWhile_run {d : Char} (n : Nat) {rest : List Char} (h : rest.head? ≠ some d) :
    (List.replicate n d ++ rest).takeWhile (· == d) = List.replicate n d := by
  apply Cursor.takeWhile_append_of_stop
  · simp
  · cases rest <;> simp_all

theorem dropWhile_run {d : Char} (n : Nat) {rest : List Char} (h : rest.head? ≠ some d) :
    (List.replicate n d ++ rest).dropWhile (· == d) = rest := by
  apply Cursor.dropWhile_append_of_stop
  · simp
  · cases rest <;> simp_all

/-! ## Readers and forms -/

theorem fractionDigits?_run (n : Nat) {rest : List Char} (h : rest.head? ≠ some '0') :
    fractionDigits? ('.' :: (List.replicate n '0' ++ rest)) =
      if isRunOf '#' rest then some (n, some (n + rest.length))
      else if n = 0 then none
      else if rest = [] then some (n, some n)
      else if rest = ['*'] ∨ rest = ['+'] then some (n, none)
      else none := by
  simp [fractionDigits?, takeWhile_run n h, dropWhile_run n h]

theorem isSome_fractionDigits?_run (n : Nat) {rest : List Char} (h : rest.head? ≠ some '0') :
    (fractionDigits? ('.' :: (List.replicate n '0' ++ rest))).isSome = true ↔
      Repeats '#' rest ∨ 0 < n ∧ (rest = [] ∨ rest = ['*'] ∨ rest = ['+']) := by
  rw [fractionDigits?_run n h, ← isRunOf_iff, Nat.pos_iff_ne_zero]
  split_ifs <;> simp_all

/-- A stem bounds the fraction digits exactly if it is of the form. -/
theorem isSome_fractionDigits?_iff {text : List Char} :
    (fractionDigits? text).isSome = true ↔ IsFractionStem text := by
  constructor
  · intro h
    have hdot : ∃ tail, text = '.' :: tail := by
      unfold fractionDigits? at h
      split at h
      · exact ⟨_, rfl⟩
      · cases h
    obtain ⟨tail, rfl⟩ := hdot
    obtain ⟨n, rest, rfl, hhead⟩ := exists_run '0' tail
    rcases (isSome_fractionDigits?_run n hhead).mp h with hsigns | ⟨hn, hmark⟩
    · cases n with
      | zero => exact .signs hsigns
      | succ n => exact .both ⟨n + 1, Nat.succ_pos n, rfl⟩ hsigns
    · exact .zeros ⟨n, hn, rfl⟩ hmark
  · rintro (⟨⟨n, hn, rfl⟩, hmark⟩ | ⟨hsigns⟩ | ⟨⟨n, hn, rfl⟩, hsigns⟩)
    · apply (isSome_fractionDigits?_run n ?_).mpr (.inr ⟨hn, hmark⟩)
      rcases hmark with rfl | rfl | rfl <;> decide
    · exact (isSome_fractionDigits?_run 0 (hsigns.head?_ne (by decide))).mpr (.inl hsigns)
    · exact (isSome_fractionDigits?_run n (hsigns.head?_ne (by decide))).mpr (.inl hsigns)

theorem isSome_priority?_iff {text : List Char} :
    (priority? text).isSome = true ↔ text = [] ∨ text = ['r'] ∨ text = ['s'] := by
  unfold priority?
  split <;> simp_all

theorem significantDigits?_plus (n : Nat) (rest : List Char) :
    significantDigits? (List.replicate n '@' ++ '+' :: rest) =
      if n = 0 then none
      else (priority? rest).map (⟨n, none, ·⟩) := by
  have hhead : ('+' :: rest).head? ≠ some '@' := by simp
  simp only [significantDigits?, takeWhile_run n hhead, dropWhile_run n hhead,
    List.length_replicate]

theorem significantDigits?_signs (n k : Nat) {rest : List Char}
    (hat : (List.replicate k '#' ++ rest).head? ≠ some '@')
    (hplus : (List.replicate k '#' ++ rest).head? ≠ some '+') (hsign : rest.head? ≠ some '#') :
    significantDigits? (List.replicate n '@' ++ (List.replicate k '#' ++ rest)) =
      if n = 0 then none
      else (priority? rest).map (⟨n, some (n + k), ·⟩) := by
  simp only [significantDigits?, takeWhile_run n hat, dropWhile_run n hat,
    List.length_replicate]
  split
  · rfl
  split
  · next heq => simp [heq] at hplus
  · simp only [takeWhile_run k hsign, dropWhile_run k hsign, List.length_replicate]

/-- In front of a letter for the priority there is a run of number signs, which may be
empty. -/
theorem significantDigits?_letter (n k : Nat) {letter : List Char}
    (h : letter = [] ∨ letter = ['r'] ∨ letter = ['s']) :
    significantDigits? (List.replicate n '@' ++ (List.replicate k '#' ++ letter)) =
      if n = 0 then none
      else (priority? letter).map (⟨n, some (n + k), ·⟩) := by
  have hhead (c : Char) (hc : c ≠ 'r' ∧ c ≠ 's') : letter.head? ≠ some c := by
    rcases h with rfl | rfl | rfl <;> simp [hc.1.symm, hc.2.symm]
  have hrun (c : Char) (hc : c ≠ 'r' ∧ c ≠ 's') (hne : '#' ≠ c) :
      (List.replicate k '#' ++ letter).head? ≠ some c := by
    cases k with
    | zero => exact hhead c hc
    | succ k => simpa [List.replicate_succ] using hne
  exact significantDigits?_signs n k (hrun '@' (by decide) (by decide))
    (hrun '+' (by decide) (by decide)) (hhead '#' (by decide))

/-- A text says how many significant digits there are exactly if it is of the form. -/
theorem isSome_significantDigits?_iff {text : List Char} :
    (significantDigits? text).isSome = true ↔ IsSignificantDigits text := by
  constructor
  · intro h
    obtain ⟨n, rest, rfl, hat⟩ := exists_run '@' text
    by_cases hplus : rest.head? = some '+'
    · obtain ⟨tail, rfl⟩ := List.head?_eq_some_iff.mp hplus
      rw [significantDigits?_plus] at h
      split at h
      · cases h
      · next hn =>
          rw [Option.isSome_map, isSome_priority?_iff] at h
          have hbound : ['+'] = [] ∨ ['+'] = ['+'] ∨ Repeats '#' ['+'] := .inr (.inl rfl)
          exact .mk ⟨n, Nat.pos_of_ne_zero hn, rfl⟩ hbound h
    · obtain ⟨k, tail, rfl, hsign⟩ := exists_run '#' rest
      rw [significantDigits?_signs n k hat hplus hsign] at h
      split at h
      · cases h
      · next hn =>
          rw [Option.isSome_map, isSome_priority?_iff] at h
          refine .mk ⟨n, Nat.pos_of_ne_zero hn, rfl⟩ ?_ h
          cases k with
          | zero => exact .inl rfl
          | succ k => exact .inr (.inr ⟨k + 1, Nat.succ_pos k, rfl⟩)
  · rintro @⟨ats, bound, priority, ⟨n, hn, rfl⟩, hbound, hpriority⟩
    have hn' : n ≠ 0 := Nat.ne_of_gt hn
    have hsome := isSome_priority?_iff.mpr hpriority
    have hsigns (k : Nat) : (significantDigits? (List.replicate n '@' ++
        (List.replicate k '#' ++ priority))).isSome = true := by
      rw [significantDigits?_letter n k hpriority, if_neg hn', Option.isSome_map]
      exact hsome
    rcases hbound with rfl | rfl | ⟨k, -, rfl⟩
    · exact hsigns 0
    · rw [List.singleton_append, significantDigits?_plus, if_neg hn', Option.isSome_map]
      exact hsome
    · exact hsigns k

theorem splitConciseLetters_eq_none_iff {text : List Char} :
    splitConciseLetters text = none ↔ text.head? ≠ some 'E' := by
  unfold splitConciseLetters
  split <;> simp_all [List.head?_eq_some_iff]

theorem splitConciseLetters_eq_some {text rest : List Char} {form : NumberNotation}
    (h : splitConciseLetters text = some (form, rest)) :
    ∃ letters, (letters = ['E'] ∨ letters = ['E', 'E']) ∧ text = letters ++ rest := by
  unfold splitConciseLetters at h
  split at h
  · cases h
    exact ⟨['E', 'E'], .inr rfl, rfl⟩
  · cases h
    exact ⟨['E'], .inl rfl, rfl⟩
  · cases h

theorem exists_conciseSign (rest : List Char) :
    ∃ sign, (sign = [] ∨ sign = ['+', '!'] ∨ sign = ['+', '?']) ∧
      rest = sign ++ (splitConciseSign rest).2 := by
  unfold splitConciseSign
  split
  · exact ⟨['+', '!'], by simp, rfl⟩
  · exact ⟨['+', '?'], by simp, rfl⟩
  · exact ⟨[], by simp, rfl⟩

/-- Behind its letters, a concise notation is a sign display and zeros. -/
theorem isConciseNotation_iff {text rest : List Char} {form : NumberNotation}
    (h : splitConciseLetters text = some (form, rest)) :
    IsConciseNotation text ↔ Repeats '0' (splitConciseSign rest).2 := by
  constructor
  · rintro ⟨hletters, hsign, ⟨n, hn, rfl⟩⟩
    obtain ⟨n, rfl⟩ := Nat.exists_eq_succ_of_ne_zero (Nat.ne_of_gt hn)
    have hzeros : Repeats '0' ('0' :: List.replicate n '0') := ⟨n + 1, hn, rfl⟩
    rcases hletters with rfl | rfl <;> rcases hsign with rfl | rfl | rfl <;> cases h <;>
      exact hzeros
  · intro hzeros
    obtain ⟨letters, hletters, rfl⟩ := splitConciseLetters_eq_some h
    obtain ⟨sign, hdisplay, hrest⟩ := exists_conciseSign rest
    rw [hrest]
    exact .mk hletters hdisplay hzeros

theorem isMostWidth_iff {text : List Char} :
    text.head? = some '#' ∧ Repeats '0' (text.dropWhile (· == '#')) ↔ IsMostWidth text := by
  constructor
  · rintro ⟨hhead, hzeros⟩
    obtain ⟨n, rest, rfl, hrest⟩ := exists_run '#' text
    rw [dropWhile_run n hrest] at hzeros
    refine ⟨_, rest, rfl, ⟨n, ?_, rfl⟩, hzeros⟩
    rw [Nat.pos_iff_ne_zero]
    rintro rfl
    exact hrest hhead
  · rintro ⟨signs, zeros, rfl, ⟨n, hn, rfl⟩, hzeros⟩
    rw [dropWhile_run n (hzeros.head?_ne (by decide))]
    exact ⟨by simp [List.head?_append, List.head?_replicate, Nat.ne_of_gt hn], hzeros⟩

instance (text : List Char) : Decidable (IsMostWidth text) := decidable_of_iff _ isMostWidth_iff

/-- What an integer width is read as, by its form. -/
inductive WidthForm (text : List Char) : Option IntegerWidth → Prop
  | least {n : Nat} (digits : 0 < n) (form : text = '*' :: List.replicate n '0') :
      WidthForm text (some (.least n))
  | exact (notLeast : ¬ IsLeastWidth text) (form : Repeats '0' text) :
      WidthForm text (some .exact)
  | most (notLeast : ¬ IsLeastWidth text) (notExact : ¬ Repeats '0' text)
      (form : IsMostWidth text) : WidthForm text (some .most)
  | other (notLeast : ¬ IsLeastWidth text) (notExact : ¬ Repeats '0' text)
      (notMost : ¬ IsMostWidth text) : WidthForm text none

theorem widthForm_integerWidth? (text : List Char) : WidthForm text (integerWidth? text) := by
  unfold integerWidth?
  split
  · next zeros =>
      split_ifs with hrun
      · obtain ⟨n, hn, rfl⟩ := isRunOf_iff.mp hrun
        rw [List.length_replicate]
        exact .least hn rfl
      · refine .other ?_ ?_ ?_
        · rintro ⟨_, htext, hzeros⟩
          cases htext
          exact hrun (isRunOf_iff.mpr hzeros)
        · exact fun h => h.head?_ne (c := '*') (by decide) rfl
        · simp [← isMostWidth_iff]
  · next hstar =>
      have hleast : ¬ IsLeastWidth text := fun ⟨zeros, htext, _⟩ => hstar zeros htext
      simp only [isRunOf_iff, isMostWidth_iff]
      split_ifs with hrun hmost
      · exact .exact hleast hrun
      · exact .most hleast hrun hmost
      · exact .other hleast hrun hmost

/-- A stem that begins as a concise notation has to be one. -/
theorem conciseNotation?_eq_error_iff {stem : String} {e : SkeletonError} :
    conciseNotation? stem = .error e ↔ stem.toList.head? = some 'E' ∧
      ¬ IsConciseNotation stem.toList ∧ e = .malformedNotation stem := by
  unfold conciseNotation?
  cases hletters : splitConciseLetters stem.toList with
  | none =>
      rw [splitConciseLetters_eq_none_iff] at hletters
      simp [hletters]
  | some split =>
      obtain ⟨form, rest⟩ := split
      have hhead : stem.toList.head? = some 'E' := by
        by_contra hne
        rw [splitConciseLetters_eq_none_iff.mpr hne] at hletters
        cases hletters
      rw [isConciseNotation_iff hletters, ← isRunOf_iff]
      simp only
      split_ifs with hrun
      · simp [hrun]
      · simp [hhead, hrun, eq_comm]

end NumberSkeleton

namespace NumberToken

open NumberSkeleton

/-! ## Refused tokens -/

/-- Why a text that does not bound the digits from below only is refused as an integer
width. -/
def widthFault (text : List Char) : OptionFault :=
  if Repeats '0' text then .exactIntegerDigits
  else if IsMostWidth text then .maximumIntegerDigits
  else .notIntegerWidth

/-- The bad tokens, with what is wrong with them. -/
inductive Refused : NumberToken → SkeletonError → Prop
  | missing {stem : String}
      (needed : stem ∈ ["currency", "unit", "measure-unit", "scale", "integer-width"]) :
      Refused ⟨stem, []⟩ (.missingOption stem)
  | scale {factor : String} {others : List String}
      (infinite : Binary64.read? factor.toList = none) :
      Refused ⟨"scale", factor :: others⟩ (.invalidOption "scale" factor .notFinite)
  | widths {options : List String} (several : 2 ≤ options.length) :
      Refused ⟨"integer-width", options⟩ (.tooManyOptions "integer-width" options.length)
  | width {option : String} (form : ¬ IsLeastWidth option.toList) :
      Refused ⟨"integer-width", [option]⟩
        (.invalidOption "integer-width" option (widthFault option.toList))
  | suffixes {stem : String} {options : List String} (fraction : IsFractionStem stem.toList)
      (several : 2 ≤ options.length) :
      Refused ⟨stem, options⟩ (.tooManyOptions stem options.length)
  | suffix {stem option : String} (fraction : IsFractionStem stem.toList) (strips : option ≠ "w")
      (form : ¬ IsSignificantDigits option.toList) :
      Refused ⟨stem, [option]⟩ (.invalidOption stem option .notFractionSuffix)
  | concise {stem : String} {options : List String} (letter : stem.toList.head? = some 'E')
      (form : ¬ IsConciseNotation stem.toList) :
      Refused ⟨stem, options⟩ (.malformedNotation stem)

/-- A token is bad if there is something wrong with it. -/
def Bad (t : NumberToken) : Prop := ∃ e, t.Refused e

variable {t : NumberToken} {e : SkeletonError}

theorem requiredOption_eq_error_iff :
    t.requiredOption = .error e ↔ t.options = [] ∧ e = .missingOption t.stem := by
  unfold requiredOption
  split <;> simp_all [eq_comm]

theorem singleOption?_eq_error_iff :
    t.singleOption? = .error e ↔
      2 ≤ t.options.length ∧ e = .tooManyOptions t.stem t.options.length := by
  obtain ⟨stem, options⟩ := t
  match options with
  | [] => simp [singleOption?]
  | [option] => simp [singleOption?]
  | first :: second :: others => simp [singleOption?, eq_comm]

theorem singleOption?_eq_ok_iff {option? : Option String} :
    t.singleOption? = .ok option? ↔ t.options = option?.toList := by
  obtain ⟨stem, options⟩ := t
  match options with
  | [] => cases option? <;> simp [singleOption?]
  | [option] => cases option? <;> simp [singleOption?]
  | first :: second :: others => cases option? <;> simp [singleOption?]

/-- The one option of an integer width has to bound the digits from below only. -/
theorem integerWidthSettings_option {stem option : String} :
    integerWidthSettings ⟨stem, [option]⟩ = .error e ↔ ¬ IsLeastWidth option.toList ∧
      e = .invalidOption stem option (widthFault option.toList) := by
  have hform := widthForm_integerWidth? option.toList
  simp only [integerWidthSettings, singleOption?, bind, Except.bind, widthFault]
  generalize integerWidth? option.toList = width? at hform ⊢
  cases hform with
  | @least n digits form =>
      have hleast : IsLeastWidth option.toList := ⟨_, form, n, digits, rfl⟩
      simp [hleast]
  | exact notLeast form => simp [notLeast, form, eq_comm]
  | most notLeast notExact form => simp [notLeast, notExact, form, eq_comm]
  | other notLeast notExact notMost => simp [notLeast, notExact, notMost, eq_comm]

theorem integerWidthSettings_eq_error_iff {stem : String} {options : List String} :
    integerWidthSettings ⟨stem, options⟩ = .error e ↔
      (options = [] ∧ e = .missingOption stem) ∨
      (2 ≤ options.length ∧ e = .tooManyOptions stem options.length) ∨
      ∃ option, options = [option] ∧ ¬ IsLeastWidth option.toList ∧
        e = .invalidOption stem option (widthFault option.toList) := by
  match options with
  | [] => simp [integerWidthSettings, singleOption?, bind, Except.bind, eq_comm]
  | [option] => simp [integerWidthSettings_option]
  | first :: second :: others =>
      simp [integerWidthSettings, singleOption?, bind, Except.bind, eq_comm]

theorem fractionOptionSettings_eq_error_iff {option? : Option String} :
    t.fractionOptionSettings option? = .error e ↔
      ∃ option, option? = some option ∧ option ≠ "w" ∧ ¬ IsSignificantDigits option.toList ∧
        e = .invalidOption t.stem option .notFractionSuffix := by
  cases option? with
  | none => simp [fractionOptionSettings]
  | some option =>
      simp only [fractionOptionSettings, ← isSome_significantDigits?_iff]
      split_ifs with hw
      · simp [hw]
      · cases hdigits : significantDigits? option.toList with
        | none => simp [hw, hdigits, eq_comm (a := e)]
        | some settings => simp [hdigits]

/-- Stems that are recognised by their form are refused as fraction stems, for their
options, or as concise notations. -/
theorem structuralSettings_eq_error_iff {stem : String} {options : List String} :
    structuralSettings ⟨stem, options⟩ = .error e ↔
      (IsFractionStem stem.toList ∧
        (2 ≤ options.length ∧ e = .tooManyOptions stem options.length ∨
          ∃ option, options = [option] ∧ option ≠ "w" ∧ ¬ IsSignificantDigits option.toList ∧
            e = .invalidOption stem option .notFractionSuffix)) ∨
      (stem.toList.head? = some 'E' ∧ ¬ IsConciseNotation stem.toList ∧
        e = .malformedNotation stem) := by
  unfold structuralSettings
  simp only
  -- The forms are told apart by their first characters.
  by_cases hzeros : isRunOf '0' stem.toList = true
  · have hhead := (isRunOf_iff.mp hzeros).head?
    have hfraction : ¬ IsFractionStem stem.toList := by
      intro h
      simp [h.head?] at hhead
    simp [hzeros, hhead, hfraction]
  rw [if_neg hzeros]
  cases hdigits : fractionDigits? stem.toList with
  | some digits =>
      have hfraction := isSome_fractionDigits?_iff.mp (hdigits ▸ Option.isSome_some)
      obtain ⟨least, most⟩ := digits
      have hreturn (settings : NumberFormatOptions) :
          (pure settings : Except SkeletonError NumberFormatOptions) ≠ .error e := nofun
      simp only [bind_eq_error_iff, singleOption?_eq_error_iff, singleOption?_eq_ok_iff,
        fractionOptionSettings_eq_error_iff, hfraction, hfraction.head?, hreturn]
      simp
  | none =>
      have hfraction : ¬ IsFractionStem stem.toList := by
        rw [← isSome_fractionDigits?_iff, hdigits]
        simp
      cases hsignificant : significantDigits? stem.toList with
      | some settings =>
          have hform := isSome_significantDigits?_iff.mp (hsignificant ▸ Option.isSome_some)
          have hhead := hform.head?
          simp [hfraction, hhead]
      | none =>
          rw [← conciseNotation?_eq_error_iff]
          simp only [hfraction, false_and, false_or, conciseSettings, map_eq_error_iff]

/-- The stems that are looked up as words. -/
def stemWords : List String := ruledStems ++ fixedStems.map Prod.fst

/-- No word has the form of a fraction stem or begins as a concise notation. -/
theorem ne_of_mem_stemWords {stem word : String}
    (h : IsFractionStem stem.toList ∨ stem.toList.head? = some 'E') (hword : word ∈ stemWords) :
    stem ≠ word := by
  have hheads : ∀ word ∈ stemWords, word.toList.head? ≠ some 'E' ∧
      (word.toList.head? = some '.' → word.toList.length = 1) := by decide
  obtain ⟨hE, hdot⟩ := hheads word hword
  rintro rfl
  rcases h with h | h
  · exact absurd (hdot h.head?) (Nat.ne_of_gt h.length_gt)
  · exact hE h

theorem settings_of_form {stem : String} {options : List String}
    (h : IsFractionStem stem.toList ∨ stem.toList.head? = some 'E') :
    settings ⟨stem, options⟩ = structuralSettings ⟨stem, options⟩ := by
  have hne (word : String) (hword : word ∈ stemWords) := ne_of_mem_stemWords h hword
  have hlookup : fixedStems.lookup stem = none := by
    rw [List.lookup_eq_none_iff]
    intro entry hentry
    simpa using hne entry.1 (List.mem_append_right _ (List.mem_map_of_mem hentry))
  simp only [settings, hne "currency" (by decide), hne "unit" (by decide),
    hne "measure-unit" (by decide), hne "scale" (by decide), hne "integer-width" (by decide),
    hne "scientific" (by decide), hne "engineering" (by decide), or_self, if_false, hlookup]

/-- A token is refused exactly if it is one of the bad ones. -/
theorem settings_eq_error_iff : t.settings = .error e ↔ t.Refused e := by
  obtain ⟨stem, options⟩ := t
  constructor
  · intro h
    have hmissing
        (needed : stem ∈ ["currency", "unit", "measure-unit", "scale", "integer-width"])
        (hnone : requiredOption ⟨stem, options⟩ = .error e) : Refused ⟨stem, options⟩ e := by
      obtain ⟨rfl, rfl⟩ := requiredOption_eq_error_iff.mp hnone
      exact .missing needed
    unfold settings at h
    simp only at h
    split at h
    · next hstem =>
        rcases bind_eq_error_iff.mp h with hnone | ⟨code, -, hreturn⟩
        · exact hmissing (by simp [hstem]) hnone
        · cases hreturn
    split at h
    · next hstem =>
        rcases bind_eq_error_iff.mp h with hnone | ⟨unit, -, hreturn⟩
        · exact hmissing (by rcases hstem with rfl | rfl <;> decide) hnone
        · cases hreturn
    split at h
    · next hstem =>
        rcases bind_eq_error_iff.mp h with hnone | ⟨factor, hfactor, hread⟩
        · exact hmissing (by simp [hstem]) hnone
        · split at hread
          · cases hread
          · next hinfinite =>
              cases hread
              cases options with
              | nil => cases hfactor
              | cons first others =>
                  cases hfactor
                  subst hstem
                  exact .scale hinfinite
    split at h
    · next hstem =>
        subst hstem
        rcases integerWidthSettings_eq_error_iff.mp h with
          ⟨rfl, rfl⟩ | ⟨hseveral, rfl⟩ | ⟨option, rfl, hform, rfl⟩
        · exact .missing (by decide)
        · exact .widths hseveral
        · exact .width hform
    split at h
    · cases h
    split at h
    · cases h
    split at h
    · cases h
    · rcases structuralSettings_eq_error_iff.mp h with
        ⟨hfraction, ⟨hseveral, rfl⟩ | ⟨option, rfl, hw, hform, rfl⟩⟩ | ⟨hletter, hform, rfl⟩
      · exact .suffixes hfraction hseveral
      · exact .suffix hfraction hw hform
      · exact .concise hletter hform
  · intro h
    cases h with
    | missing needed =>
        simp only [List.mem_cons, List.not_mem_nil, or_false] at needed
        rcases needed with rfl | rfl | rfl | rfl | rfl <;> rfl
    | scale infinite => simp [settings, scaleSettings, requiredOption, bind, Except.bind, infinite]
    | widths several =>
        exact integerWidthSettings_eq_error_iff.mpr (.inr (.inl ⟨several, rfl⟩))
    | width form =>
        exact integerWidthSettings_eq_error_iff.mpr (.inr (.inr ⟨_, rfl, form, rfl⟩))
    | suffixes fraction several =>
        rw [settings_of_form (.inl fraction)]
        exact structuralSettings_eq_error_iff.mpr (.inl ⟨fraction, .inl ⟨several, rfl⟩⟩)
    | suffix fraction strips form =>
        rw [settings_of_form (.inl fraction)]
        exact structuralSettings_eq_error_iff.mpr
          (.inl ⟨fraction, .inr ⟨_, rfl, strips, form, rfl⟩⟩)
    | concise letter form =>
        rw [settings_of_form (.inr letter)]
        exact structuralSettings_eq_error_iff.mpr (.inr ⟨letter, form, rfl⟩)

theorem exists_settings_iff : (∃ settings, t.settings = .ok settings) ↔ ¬ t.Bad := by
  rw [exists_eq_ok_iff]
  simp only [Bad, ← settings_eq_error_iff, not_exists]

end NumberToken

namespace NumberSkeleton

/-- Tokens can be interpreted exactly if none of them is bad. -/
theorem exists_interpret_iff {tokens : List NumberToken} :
    (∃ r, interpret tokens = .ok r) ↔ ∀ t ∈ tokens, ¬ t.Bad := by
  simp only [interpret_eq_layered, exists_layered_iff, NumberToken.exists_settings_iff]

/-- Interpretation fails at the first bad token, with what is wrong with it. -/
theorem interpret_eq_error_iff {tokens : List NumberToken} {e : SkeletonError} :
    interpret tokens = .error e ↔ ∃ before t after, tokens = before ++ t :: after ∧
      (∀ u ∈ before, ¬ u.Bad) ∧ t.Refused e := by
  rw [interpret_eq_layered, layered_eq_error_iff]
  simp only [NumberToken.settings_eq_error_iff, NumberToken.exists_settings_iff]

/-- The tokens of a skeleton are refused exactly if one of them is bad, and then for
the first bad one. -/
theorem interpret_refuses_first_bad (tokens : List NumberToken) :
    ((∃ e, interpret tokens = .error e) ↔ ∃ t ∈ tokens, t.Bad) ∧
    ∀ e, interpret tokens = .error e ↔ ∃ before t after, tokens = before ++ t :: after ∧
      (∀ u ∈ before, ¬ u.Bad) ∧ t.Refused e := by
  refine ⟨?_, fun e => interpret_eq_error_iff⟩
  have hok : (∃ r, interpret tokens = .ok r) ↔ ∀ t ∈ tokens, ¬ t.Bad := exists_interpret_iff
  constructor
  · rintro ⟨e, he⟩
    by_contra hnone
    obtain ⟨r, hr⟩ := hok.mpr fun t hmem hbad => hnone ⟨t, hmem, hbad⟩
    cases he.symm.trans hr
  · rintro ⟨t, hmem, hbad⟩
    cases hinterpret : interpret tokens with
    | error e => exact ⟨e, rfl⟩
    | ok r => exact absurd hbad (hok.mp ⟨r, hinterpret⟩ t hmem)

end NumberSkeleton

end MessagePattern
