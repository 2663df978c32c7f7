/-
# Texts that bound digits

The stems and options that bound the digits of a number are runs of one character
behind another, and the bounds are the lengths of these runs.  `FractionBounds`,
`SignificantBounds` and `ConciseDigits` give the bounds next to the text that states
them, so each form can be read off on its own.  The readers give exactly these bounds.
-/

import MessagePattern.Proofs.RefusedTokens

namespace MessagePattern

/-- The part of some settings that concerns digits. -/
def NumberFormatOptions.digits (settings : NumberFormatOptions) : NumberFormatOptions :=
  { minimumIntegerDigits := settings.minimumIntegerDigits
    minimumFractionDigits := settings.minimumFractionDigits
    maximumFractionDigits := settings.maximumFractionDigits
    minimumSignificantDigits := settings.minimumSignificantDigits
    maximumSignificantDigits := settings.maximumSignificantDigits
    roundingPriority := settings.roundingPriority }

namespace NumberFormatOptions

@[simp] theorem digits_override (a b : NumberFormatOptions) :
    (a.override b).digits = a.digits.override b.digits := by
  simp [digits, override]

end NumberFormatOptions

namespace NumberSkeleton

/-! ## Bounds and the texts that state them -/

/-- The bounds on fraction digits that a stem states. -/
inductive FractionBounds : List Char → Nat → Option Nat → Prop
  | exactly {a : Nat} (digits : 1 ≤ a) :
      FractionBounds ('.' :: List.replicate a '0') a (some a)
  | atLeast {a : Nat} {mark : Char} (digits : 1 ≤ a) (bound : mark = '*' ∨ mark = '+') :
      FractionBounds ('.' :: (List.replicate a '0' ++ [mark])) a none
  | atMost {b : Nat} (digits : 1 ≤ b) :
      FractionBounds ('.' :: List.replicate b '#') 0 (some b)
  | between {a b : Nat} (digits : 1 ≤ a) (more : 1 ≤ b) :
      FractionBounds ('.' :: (List.replicate a '0' ++ List.replicate b '#')) a (some (a + b))

/-- The letter behind significant digits and the priority that it states. -/
inductive PriorityLetter : List Char → Option RoundingPriority → Prop
  | absent : PriorityLetter [] none
  | more : PriorityLetter ['r'] (some .morePrecision)
  | less : PriorityLetter ['s'] (some .lessPrecision)

/-- The bounds on significant digits that a text states, and the priority. -/
inductive SignificantBounds : List Char → Nat → Option Nat → Option RoundingPriority → Prop
  | exactly {a : Nat} {letter : List Char} {priority : Option RoundingPriority} (digits : 1 ≤ a)
      (said : PriorityLetter letter priority) :
      SignificantBounds (List.replicate a '@' ++ letter) a (some a) priority
  | atLeast {a : Nat} {letter : List Char} {priority : Option RoundingPriority} (digits : 1 ≤ a)
      (said : PriorityLetter letter priority) :
      SignificantBounds (List.replicate a '@' ++ '+' :: letter) a none priority
  | between {a b : Nat} {letter : List Char} {priority : Option RoundingPriority}
      (digits : 1 ≤ a) (more : 1 ≤ b) (said : PriorityLetter letter priority) :
      SignificantBounds (List.replicate a '@' ++ (List.replicate b '#' ++ letter)) a
        (some (a + b)) priority

/-- A concise notation that ends in a number of zeros. -/
inductive ConciseDigits : List Char → Nat → Prop
  | mk {letters sign : List Char} {a : Nat} (form : letters = ['E'] ∨ letters = ['E', 'E'])
      (display : sign = [] ∨ sign = ['+', '!'] ∨ sign = ['+', '?']) (digits : 1 ≤ a) :
      ConciseDigits (letters ++ (sign ++ List.replicate a '0')) a

variable {text : List Char} {least : Nat} {most : Option Nat}
  {priority : Option RoundingPriority}

/-! ## Readers -/

theorem FractionBounds.fractionDigits?_eq (h : FractionBounds text least most) :
    fractionDigits? text = some (least, most) := by
  cases h with
  | exactly digits =>
      have hhead : ([] : List Char).head? ≠ some '0' := by simp
      have hread := fractionDigits?_run least hhead
      rw [List.append_nil] at hread
      simp [hread, isRunOf, Nat.ne_of_gt digits]
  | @atLeast _ mark digits bound =>
      have hmark : [mark].head? ≠ some '0' := by rcases bound with rfl | rfl <;> decide
      rw [fractionDigits?_run least hmark]
      rcases bound with rfl | rfl <;> simp [isRunOf, Nat.ne_of_gt digits]
  | @atMost b digits =>
      have hsigns : Repeats '#' (List.replicate b '#') := ⟨b, digits, rfl⟩
      have hread := fractionDigits?_run 0 (hsigns.head?_ne (by decide))
      simpa [isRunOf_iff.mpr hsigns] using hread
  | @between _ b digits more =>
      have hsigns : Repeats '#' (List.replicate b '#') := ⟨b, more, rfl⟩
      rw [fractionDigits?_run least (hsigns.head?_ne (by decide))]
      simp [isRunOf_iff.mpr hsigns]

/-- The stems of fraction precision are those that state bounds. -/
theorem isFractionStem_iff :
    IsFractionStem text ↔ ∃ least most, FractionBounds text least most := by
  constructor
  · rintro (⟨⟨a, digits, rfl⟩, rfl | rfl | rfl⟩ | ⟨⟨b, digits, rfl⟩⟩ |
      ⟨⟨a, digits, rfl⟩, ⟨b, more, rfl⟩⟩)
    · rw [List.append_nil]
      exact ⟨a, some a, .exactly digits⟩
    · exact ⟨a, none, .atLeast digits (.inl rfl)⟩
    · exact ⟨a, none, .atLeast digits (.inr rfl)⟩
    · exact ⟨0, some b, .atMost digits⟩
    · exact ⟨a, some (a + b), .between digits more⟩
  · rintro ⟨least, most, h⟩
    rw [← isSome_fractionDigits?_iff, h.fractionDigits?_eq]
    rfl

theorem fractionDigits?_eq_some_iff :
    fractionDigits? text = some (least, most) ↔ FractionBounds text least most := by
  refine ⟨fun h => ?_, FractionBounds.fractionDigits?_eq⟩
  obtain ⟨a, b, hbounds⟩ :=
    isFractionStem_iff.mp (isSome_fractionDigits?_iff.mp (h ▸ Option.isSome_some))
  cases h.symm.trans hbounds.fractionDigits?_eq
  exact hbounds

theorem PriorityLetter.priority?_eq (h : PriorityLetter text priority) :
    priority? text = some priority := by
  cases h <;> rfl

theorem exists_priorityLetter_iff :
    (∃ priority, PriorityLetter text priority) ↔ text = [] ∨ text = ['r'] ∨ text = ['s'] := by
  constructor
  · rintro ⟨priority, h⟩
    cases h <;> simp
  · rintro (rfl | rfl | rfl)
    · exact ⟨none, .absent⟩
    · exact ⟨some .morePrecision, .more⟩
    · exact ⟨some .lessPrecision, .less⟩

theorem SignificantBounds.significantDigits?_eq
    (h : SignificantBounds text least most priority) :
    significantDigits? text = some ⟨least, most, priority⟩ := by
  cases h with
  | @exactly _ letter _ digits said =>
      have hread := significantDigits?_letter least 0 (exists_priorityLetter_iff.mp ⟨_, said⟩)
      simpa [said.priority?_eq, Nat.ne_of_gt digits] using hread
  | atLeast digits said =>
      rw [significantDigits?_plus]
      simp [said.priority?_eq, Nat.ne_of_gt digits]
  | @between _ b letter _ digits more said =>
      rw [significantDigits?_letter least b (exists_priorityLetter_iff.mp ⟨_, said⟩)]
      simp [said.priority?_eq, Nat.ne_of_gt digits]

theorem isSignificantDigits_iff :
    IsSignificantDigits text ↔
      ∃ least most priority, SignificantBounds text least most priority := by
  constructor
  · rintro @⟨_, _, letter, ⟨a, digits, rfl⟩, hbound, hletter⟩
    obtain ⟨priority, said⟩ := exists_priorityLetter_iff.mpr hletter
    rcases hbound with rfl | rfl | ⟨b, more, rfl⟩
    · exact ⟨a, some a, priority, .exactly digits said⟩
    · exact ⟨a, none, priority, .atLeast digits said⟩
    · exact ⟨a, some (a + b), priority, .between digits more said⟩
  · rintro ⟨least, most, priority, h⟩
    rw [← isSome_significantDigits?_iff, h.significantDigits?_eq]
    rfl

theorem significantDigits?_eq_some_iff {k : SignificantDigits} :
    significantDigits? text = some k ↔ SignificantBounds text k.least k.most k.priority := by
  refine ⟨fun h => ?_, SignificantBounds.significantDigits?_eq⟩
  obtain ⟨least, most, priority, hbounds⟩ :=
    isSignificantDigits_iff.mp (isSome_significantDigits?_iff.mp (h ▸ Option.isSome_some))
  cases h.symm.trans hbounds.significantDigits?_eq
  exact hbounds

/-- A text states the bounds on significant digits in one way only. -/
theorem SignificantBounds.unique {least' : Nat} {most' : Option Nat}
    {priority' : Option RoundingPriority} (h : SignificantBounds text least most priority)
    (h' : SignificantBounds text least' most' priority') :
    least = least' ∧ most = most' ∧ priority = priority' := by
  have heq := h.significantDigits?_eq.symm.trans h'.significantDigits?_eq
  simpa using heq

/-- A stem that is read as a concise notation states its digits, and one that is not does not
begin as one. -/
theorem conciseDigits_of_conciseNotation? {stem : String} {concise? : Option ConciseNotation}
    (h : conciseNotation? stem = .ok concise?) :
    (concise? = none ∧ stem.toList.head? ≠ some 'E') ∨
      ∃ k, concise? = some k ∧ ConciseDigits stem.toList k.digits := by
  unfold conciseNotation? at h
  split at h
  · next hletters =>
      cases h
      exact .inl ⟨rfl, splitConciseLetters_eq_none_iff.mp hletters⟩
  · next form rest hletters =>
      obtain ⟨letters, hform, htext⟩ := splitConciseLetters_eq_some hletters
      obtain ⟨sign, hdisplay, hrest⟩ := exists_conciseSign rest
      simp only at h
      split at h
      · next hrun =>
          cases h
          obtain ⟨a, digits, hzeros⟩ := isRunOf_iff.mp hrun
          refine .inr ⟨_, rfl, ?_⟩
          simp only [hzeros, List.length_replicate]
          rw [htext, hrest, hzeros]
          exact .mk hform hdisplay digits
      · cases h

/-- A concise notation sets, of what concerns digits, the least number of integer digits. -/
theorem digits_of_conciseSettings {stem : String} {settings : NumberFormatOptions}
    (h : conciseSettings stem = .ok settings) :
    (stem.toList.head? ≠ some 'E' ∧ settings = {}) ∨
      ∃ a, ConciseDigits stem.toList a ∧ settings.digits = { minimumIntegerDigits := some a } := by
  obtain ⟨concise?, hread, rfl⟩ := map_eq_ok h
  rcases conciseDigits_of_conciseNotation? hread with ⟨rfl, hhead⟩ | ⟨k, rfl, hdigits⟩
  · exact .inl ⟨hhead, rfl⟩
  · exact .inr ⟨k.digits, hdigits, rfl⟩

theorem ConciseDigits.head? {a : Nat} (h : ConciseDigits text a) : text.head? = some 'E' := by
  cases h with
  | mk form display digits => rcases form with rfl | rfl <;> rfl

theorem ConciseDigits.count_eq {a : Nat} (h : ConciseDigits text a) : text.count '0' = a := by
  obtain ⟨hform, hdisplay, -⟩ := h
  rcases hform with rfl | rfl <;> rcases hdisplay with rfl | rfl | rfl <;> simp

/-! ## Forms that exclude each other -/

theorem FractionBounds.isFractionStem (h : FractionBounds text least most) :
    IsFractionStem text := isFractionStem_iff.mpr ⟨least, most, h⟩

theorem SignificantBounds.isSignificantDigits
    (h : SignificantBounds text least most priority) : IsSignificantDigits text :=
  isSignificantDigits_iff.mpr ⟨least, most, priority, h⟩

theorem not_significant_of_fraction (h : IsFractionStem text) :
    ¬ IsSignificantDigits text := by
  intro hsignificant
  cases h.head?.symm.trans hsignificant.head?

/-- The stems that ask for no fraction. -/
def AsksNoFraction (stem : String) : Prop := stem = "." ∨ stem = "precision-integer"

instance : DecidablePred AsksNoFraction := fun _ => inferInstanceAs (Decidable (_ ∨ _))

theorem AsksNoFraction.not_fraction {stem : String} (h : AsksNoFraction stem) :
    ¬ IsFractionStem stem.toList := by
  have hmem : "." ∈ NumberToken.stemWords ∧ "precision-integer" ∈ NumberToken.stemWords := by
    decide
  intro hfraction
  rcases h with rfl | rfl
  · exact NumberToken.ne_of_mem_stemWords (.inl hfraction) hmem.1 rfl
  · exact NumberToken.ne_of_mem_stemWords (.inl hfraction) hmem.2 rfl

theorem AsksNoFraction.not_significant {stem : String} (h : AsksNoFraction stem) :
    ¬ IsSignificantDigits stem.toList := by
  intro hsignificant
  have hhead := hsignificant.head?
  rcases h with rfl | rfl <;> simp at hhead

/-! ## Orders and sizes -/

theorem FractionBounds.le {n : Nat} (h : FractionBounds text least (some n)) : least ≤ n := by
  cases h <;> omega

theorem SignificantBounds.le {n : Nat} (h : SignificantBounds text least (some n) priority) :
    least ≤ n := by
  cases h <;> omega

theorem FractionBounds.le_length (h : FractionBounds text least most) :
    least ≤ text.length ∧ ∀ n ∈ most, n ≤ text.length := by
  cases h <;> simp <;> omega

theorem SignificantBounds.le_length (h : SignificantBounds text least most priority) :
    least ≤ text.length ∧ ∀ n ∈ most, n ≤ text.length := by
  cases h <;> simp

end NumberSkeleton

end MessagePattern
