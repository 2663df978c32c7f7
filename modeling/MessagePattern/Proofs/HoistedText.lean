/-
# Writing hoisted messages

Hoisting copies what surrounds a selector into its branches.  Each element stays
as legible as it was, but it may stand deeper, it may stand inside a plural that
was next to it, and literals that a selector held apart may meet.

A hoisted message is written and read back.  Its elements need nothing that they
did not need before, so if it is not nested too deep and no number sign has come
to stand in a select branch inside its plural, the message comes back joined
exactly if it is rejoinable.
-/

import MessagePattern.Proofs.Hoisting
import MessagePattern.Proofs.Joining
import MessagePattern.Proofs.RoundTrip

namespace MessagePattern

/-! ## Depth -/

mutual

/-- How many tag bodies and branches are nested in an element. -/
def Element.nestingDepth : Element → Nat
  | .selector _ _ branches _ => branchesDepth branches
  | .tag _ children _ => nestingDepth children + 1
  | _ => 0

/-- How many tag bodies and branches are nested in a list of elements. -/
def nestingDepth : List Element → Nat
  | [] => 0
  | e :: es => max e.nestingDepth (nestingDepth es)

/-- The same for branches, which count themselves. -/
def branchesDepth : List (Branch Element) → Nat
  | [] => 0
  | ⟨_, value, _⟩ :: branches => max (nestingDepth value + 1) (branchesDepth branches)

end

theorem nestingDepth_le_of_mem {e : Element} {es : List Element} (h : e ∈ es) :
    e.nestingDepth ≤ nestingDepth es := by
  induction es with
  | nil => cases h
  | cons first es ih =>
      rw [nestingDepth]
      rcases List.mem_cons.mp h with rfl | h
      · exact Nat.le_max_left _ _
      · exact (ih h).trans (Nat.le_max_right _ _)

theorem nestingDepth_lt_of_mem {b : Branch Element} {branches : List (Branch Element)}
    (h : b ∈ branches) : nestingDepth b.value < branchesDepth branches := by
  induction branches with
  | nil => cases h
  | cons first branches ih =>
      rw [branchesDepth]
      rcases List.mem_cons.mp h with rfl | h
      · exact Nat.lt_of_succ_le (Nat.le_max_left _ _)
      · exact (ih h).trans_le (Nat.le_max_right _ _)

/-! ## Number signs -/

/-- Where a number sign stands. -/
inductive SignPlace
  /-- In no plural. -/
  | outside
  /-- In its plural, with no other branch in between. -/
  | direct
  /-- In a select branch that is inside its plural. -/
  | hidden
  deriving DecidableEq

/-- What a place becomes in the branches of a selector. -/
def SignPlace.enter : SelectorKind → SignPlace → SignPlace
  | .plural _ _, _ => .direct
  | .select, .outside => .outside
  | .select, _ => .hidden

mutual

/-- The places of the number signs in an element. -/
def Element.signPlaces (place : SignPlace) : Element → List SignPlace
  | .selector kind _ branches _ => branchSignPlaces (place.enter kind) branches
  | .pound _ => [place]
  | .tag _ children _ => signPlaces place children
  | _ => []

/-- The places of the number signs in a list of elements. -/
def signPlaces (place : SignPlace) : List Element → List SignPlace
  | [] => []
  | e :: es => e.signPlaces place ++ signPlaces place es

/-- The places of the number signs in branches. -/
def branchSignPlaces (place : SignPlace) : List (Branch Element) → List SignPlace
  | [] => []
  | ⟨_, value, _⟩ :: branches => signPlaces place value ++ branchSignPlaces place branches

end

theorem signPlaces_append (place : SignPlace) (first second : List Element) :
    signPlaces place (first ++ second) = signPlaces place first ++ signPlaces place second := by
  induction first with
  | nil => rfl
  | cons e first ih => rw [List.cons_append, signPlaces, signPlaces, ih, List.append_assoc]

theorem signPlaces_subset {e : Element} {es : List Element} (place : SignPlace) (h : e ∈ es) :
    e.signPlaces place ⊆ signPlaces place es := by
  induction es with
  | nil => cases h
  | cons first es ih =>
      rw [signPlaces]
      rcases List.mem_cons.mp h with rfl | h
      · exact List.subset_append_left _ _
      · exact List.subset_append_of_subset_right _ (ih h)

theorem mem_branchSignPlaces {place sign : SignPlace} {branches : List (Branch Element)} :
    sign ∈ branchSignPlaces place branches ↔ ∃ b ∈ branches, sign ∈ signPlaces place b.value := by
  induction branches with
  | nil => simp [branchSignPlaces]
  | cons b branches ih => simp [branchSignPlaces, ih]

/-- A sign directly inside the branches of a selector is one of a plural. -/
theorem enter_eq_direct (kind : SelectorKind) (place : SignPlace) :
    (place.enter kind == .direct) = kind.isPlural := by
  cases kind with
  | plural type offset => rfl
  | select => cases place <;> rfl

theorem enter_eq_outside {kind : SelectorKind} {place other : SignPlace}
    (h : place = .outside → other = .outside) (hplace : place.enter kind = .outside) :
    other.enter kind = .outside := by
  cases kind with
  | plural type offset => cases hplace
  | select =>
      cases place with
      | outside => rw [h rfl]; rfl
      | direct | hidden => cases hplace

mutual

/-- In a message that was read, every number sign is directly in its plural. -/
theorem Element.WellFormed.direct_of_mem {o : ParseOptions} :
    ∀ {e : Element} {level : Nat} {place : SignPlace}, e.WellFormed o level (place == .direct) →
      ∀ sign ∈ e.signPlaces place, sign = .direct
  | .literal _ _, _, _, _, _, hsign | .argument _ _, _, _, _, _, hsign
  | .number _ _ _, _, _, _, _, hsign | .dateTime _ _ _ _, _, _, _, _, hsign => nomatch hsign
  | .pound _, _, place, hwf, sign, hsign => by
      rw [Element.signPlaces, List.mem_singleton] at hsign
      rw [hsign]
      exact eq_of_beq hwf
  | .selector kind _ branches _, _, place, hwf, sign, hsign => by
      have hbranches := hwf.2.2.2
      rw [← enter_eq_direct kind place] at hbranches
      exact direct_of_mem_branches hbranches sign hsign
  | .tag _ _ _, _, _, hwf, sign, hsign => direct_of_mem hwf.2.2.2.2 sign hsign

theorem direct_of_mem {o : ParseOptions} :
    ∀ {es : List Element} {level : Nat} {place : SignPlace},
      ElementsWellFormed o level (place == .direct) es →
      ∀ sign ∈ signPlaces place es, sign = .direct
  | [], _, _, _, _, hsign => nomatch hsign
  | e :: es, _, _, hwf, sign, hsign => by
      rcases List.mem_append.mp hsign with hfirst | hrest
      · exact hwf.1.direct_of_mem sign hfirst
      · exact direct_of_mem hwf.2 sign hrest

theorem direct_of_mem_branches {o : ParseOptions} :
    ∀ {branches : List (Branch Element)} {level : Nat} {place : SignPlace},
      BranchesWellFormed o level (place == .direct) branches →
      ∀ sign ∈ branchSignPlaces place branches, sign = .direct
  | [], _, _, _, _, hsign => nomatch hsign
  | ⟨_, value, _⟩ :: branches, _, _, hwf, sign, hsign => by
      rcases List.mem_append.mp hsign with hfirst | hrest
      · exact direct_of_mem hwf.1.2.2 sign hfirst
      · exact direct_of_mem_branches hwf.2 sign hrest

end

mutual

/-- A sign that is in no plural when its element is moved was in none before,
unless the element was moved out of one. -/
theorem Element.outside_of_mem :
    ∀ {e : Element} {place other : SignPlace}, (place = .outside → other = .outside) →
      .outside ∈ e.signPlaces place → .outside ∈ e.signPlaces other
  | .literal _ _, _, _, _, hsign | .argument _ _, _, _, _, hsign
  | .number _ _ _, _, _, _, hsign | .dateTime _ _ _ _, _, _, _, hsign => nomatch hsign
  | .pound _, place, other, h, hsign => by
      rw [Element.signPlaces, List.mem_singleton] at hsign
      rw [Element.signPlaces, h hsign.symm]
      exact List.mem_singleton_self _
  | .selector _ _ _ _, _, _, h, hsign => outside_of_mem_branches (enter_eq_outside h) hsign
  | .tag _ _ _, _, _, h, hsign => outside_of_mem h hsign

theorem outside_of_mem :
    ∀ {es : List Element} {place other : SignPlace}, (place = .outside → other = .outside) →
      .outside ∈ signPlaces place es → .outside ∈ signPlaces other es
  | [], _, _, _, hsign => nomatch hsign
  | _ :: _, _, _, h, hsign => by
      rcases List.mem_append.mp hsign with hfirst | hrest
      · exact List.mem_append_left _ (Element.outside_of_mem h hfirst)
      · exact List.mem_append_right _ (outside_of_mem h hrest)

theorem outside_of_mem_branches :
    ∀ {branches : List (Branch Element)} {place other : SignPlace},
      (place = .outside → other = .outside) →
      .outside ∈ branchSignPlaces place branches → .outside ∈ branchSignPlaces other branches
  | [], _, _, _, hsign => nomatch hsign
  | ⟨_, _, _⟩ :: _, _, _, h, hsign => by
      rcases List.mem_append.mp hsign with hfirst | hrest
      · exact List.mem_append_left _ (outside_of_mem h hfirst)
      · exact List.mem_append_right _ (outside_of_mem_branches h hrest)

end

theorem eq_outside_of_enter {kind : SelectorKind} {place : SignPlace}
    (h : place.enter kind = .outside) : place = .outside := by
  cases kind with
  | plural type offset => cases h
  | select =>
      cases place with
      | outside => rfl
      | direct | hidden => cases h

/-- Hoisting takes no number sign out of its plural. -/
theorem outside_of_mem_hoisted {elements hoisted : List Element} (place : SignPlace)
    (h : hoistSelectors elements = .ok hoisted) :
    .outside ∈ signPlaces place hoisted → .outside ∈ signPlaces place elements := by
  refine hoistSelectors_induction (P := fun elements hoisted => ∀ place,
    .outside ∈ signPlaces place hoisted → .outside ∈ signPlaces place elements)
    (fun _ _ _ => id) ?_ h place
  intro before kind name branches location after hoisted _ hspliced place hsign
  rw [signPlaces, signPlaces, List.append_nil, Element.signPlaces, mem_branchSignPlaces] at hsign
  obtain ⟨b', hb', hsign⟩ := hsign
  obtain ⟨b, hb, hbranch⟩ := exists_splicedBranch hspliced hb'
  have hsplice := hbranch.value _ hsign
  simp only [signPlaces_append, List.mem_append] at hsplice
  rw [signPlaces_append, signPlaces, Element.signPlaces, List.mem_append, List.mem_append,
    mem_branchSignPlaces]
  rcases hsplice with (hbefore | hvalue) | hafter
  · exact .inl (outside_of_mem eq_outside_of_enter hbefore)
  · exact .inr (.inl ⟨b, hb, hvalue⟩)
  · exact .inr (.inr (outside_of_mem eq_outside_of_enter hafter))

/-! ## Legible messages -/

mutual

/-- Everything in an element is legible. -/
def Element.Spelled (o : ParseOptions) : Element → Prop
  | .selector kind name branches location =>
    (Element.selector kind name branches location).Legible o ∧ BranchesSpelled o branches
  | .tag name children location =>
    (Element.tag name children location).Legible o ∧ Spelled o children
  | e => e.Legible o

/-- Everything in a list of elements is legible. -/
def Spelled (o : ParseOptions) : List Element → Prop
  | [] => True
  | e :: es => e.Spelled o ∧ Spelled o es

/-- Everything in branches is legible. -/
def BranchesSpelled (o : ParseOptions) : List (Branch Element) → Prop
  | [] => True
  | ⟨_, value, _⟩ :: branches => Spelled o value ∧ BranchesSpelled o branches

end

theorem Element.Spelled.legible {o : ParseOptions} {e : Element} (h : e.Spelled o) :
    e.Legible o := by
  cases e with
  | selector | tag => exact h.1
  | _ => exact h

theorem spelled_iff {o : ParseOptions} {es : List Element} :
    Spelled o es ↔ ∀ e ∈ es, e.Spelled o := by
  induction es with
  | nil => simp [Spelled]
  | cons e es ih => rw [Spelled, ih, List.forall_mem_cons]

theorem spelled_append {o : ParseOptions} {first second : List Element} :
    Spelled o (first ++ second) ↔ Spelled o first ∧ Spelled o second := by
  simp only [spelled_iff, List.forall_mem_append]

theorem branchesSpelled_iff {o : ParseOptions} {branches : List (Branch Element)} :
    BranchesSpelled o branches ↔ ∀ b ∈ branches, Spelled o b.value := by
  induction branches with
  | nil => simp [BranchesSpelled]
  | cons b branches ih => rw [BranchesSpelled, ih, List.forall_mem_cons]

mutual

theorem Element.WellFormed.spelled {o : ParseOptions} :
    ∀ {e : Element} {level : Nat} {inPlural : Bool}, e.WellFormed o level inPlural → e.Spelled o
  | .literal _ _, _, _, h | .argument _ _, _, _, h | .number _ _ _, _, _, h
  | .dateTime _ _ _ _, _, _, h => h
  | .pound _, _, _, _ => trivial
  | .selector _ _ _ _, _, _, h => ⟨h.legible, branchesSpelled_of_wellFormed h.2.2.2⟩
  | .tag _ _ _, _, _, h => ⟨h.legible, spelled_of_wellFormed h.2.2.2.2⟩

theorem spelled_of_wellFormed {o : ParseOptions} :
    ∀ {es : List Element} {level : Nat} {inPlural : Bool},
      ElementsWellFormed o level inPlural es → Spelled o es
  | [], _, _, _ => trivial
  | _ :: _, _, _, h => ⟨h.1.spelled, spelled_of_wellFormed h.2⟩

theorem branchesSpelled_of_wellFormed {o : ParseOptions} :
    ∀ {branches : List (Branch Element)} {level : Nat} {inPlural : Bool},
      BranchesWellFormed o level inPlural branches → BranchesSpelled o branches
  | [], _, _, _ => trivial
  | ⟨_, _, _⟩ :: _, _, _, h => ⟨spelled_of_wellFormed h.1.2.2, branchesSpelled_of_wellFormed h.2⟩

end

/-- Hoisting leaves everything legible. -/
theorem spelled_hoistSelectors {o : ParseOptions} {elements hoisted : List Element}
    (h : hoistSelectors elements = .ok hoisted) (hspelled : Spelled o elements) :
    Spelled o hoisted := by
  refine hoistSelectors_induction (P := fun elements hoisted => Spelled o elements →
    Spelled o hoisted) (fun _ _ => id) ?_ h hspelled
  intro before kind name branches location after hoisted _ hspliced hspelled
  simp only [spelled_append, Spelled, Element.Spelled, Element.Legible, branchesSpelled_iff]
    at hspelled ⊢
  obtain ⟨hbefore, ⟨hlegible, hbranches⟩, hafter⟩ := hspelled
  refine ⟨⟨by rwa [selectors_splice hspliced], fun b' hb' => ?_⟩, trivial⟩
  obtain ⟨b, hb, hbranch⟩ := exists_splicedBranch hspliced hb'
  apply hbranch.value
  simp only [spelled_append]
  exact ⟨⟨hbefore, hbranches b hb⟩, hafter⟩

/-! ## Writing and reading back -/

/-- A text that can be written and read in some place, with so many levels of
nesting left. -/
structure Writable (o : ParseOptions) (budget : Nat) (place : SignPlace) (es : List Element) :
    Prop where
  spelled : Spelled o es
  signs : ∀ sign ∈ signPlaces place es, sign = .direct
  depth : nestingDepth es ≤ budget

section Writable

variable {o : ParseOptions} {budget : Nat} {place : SignPlace} {es : List Element}

theorem Writable.direct (h : Writable o budget place es) {location : Location}
    (he : .pound location ∈ es) : place = .direct :=
  h.signs place (signPlaces_subset place he (List.mem_singleton_self place))

theorem Writable.branch (h : Writable o budget place es) {kind : SelectorKind} {name : String}
    {branches : List (Branch Element)} {location : Location} {b : Branch Element}
    (he : .selector kind name branches location ∈ es) (hb : b ∈ branches) :
    ∃ less, budget = less + 1 ∧ Writable o less (place.enter kind) b.value := by
  have hdepth := (nestingDepth_le_of_mem he).trans h.depth
  rw [Element.nestingDepth] at hdepth
  have hvalue := (nestingDepth_lt_of_mem hb).trans_le hdepth
  obtain ⟨less, rfl⟩ := Nat.exists_eq_add_of_lt (Nat.zero_lt_of_lt hvalue)
  refine ⟨less, by omega, ?_, ?_, by omega⟩
  · exact branchesSpelled_iff.mp (spelled_iff.mp h.spelled _ he).2 b hb
  · intro sign hsign
    exact h.signs sign (signPlaces_subset place he (mem_branchSignPlaces.mpr ⟨b, hb, hsign⟩))

theorem Writable.children (h : Writable o budget place es) {name : String}
    {children : List Element} {location : Location} (he : .tag name children location ∈ es) :
    ∃ less, budget = less + 1 ∧ Writable o less place children := by
  have hdepth := (nestingDepth_le_of_mem he).trans h.depth
  rw [Element.nestingDepth] at hdepth
  obtain ⟨less, rfl⟩ := Nat.exists_eq_add_of_lt (Nat.zero_lt_of_lt hdepth)
  refine ⟨less, by omega, ?_, ?_, by omega⟩
  · exact (spelled_iff.mp h.spelled _ he).2
  · exact fun sign hsign => h.signs sign (signPlaces_subset place he hsign)

/-- What is writable comes back joined if it is rejoinable, and only then. -/
theorem Writable.recoversText (h : Writable o budget place es) {s : Scope}
    (hplace : s.plural = (place == .direct)) {tail : List Char} (htail : Closes o s tail) :
    RecoversText (readMessage o (budget + 1)) joined (Rejoinable o) s es tail := by
  -- Texts in an element have one level less to go.
  induction budget using Nat.strongRecOn generalizing es s place tail with
  | ind budget ih =>
  have hlegible : ∀ e ∈ es, e.Legible o :=
    fun e he => (spelled_iff.mp h.spelled e he).legible
  have hsigns : ∀ location, .pound location ∈ es → s.plural = true := by
    intro location he
    rw [hplace, h.direct he]
    rfl
  apply recoversText_joined hlegible hsigns _ htail
  intro e he
  cases e with
  | literal | argument | number | dateTime | pound => trivial
  | selector kind name branches location =>
      intro b hb rest
      obtain ⟨less, rfl, hvalue⟩ := h.branch he hb
      exact ih less (Nat.lt_succ_self less) hvalue (enter_eq_direct kind place).symm
        (.branch rfl rest)
  | tag name children location =>
      intro rest
      obtain ⟨less, rfl, hchildren⟩ := h.children he
      have hbody : s.tagBody.plural = (place == .direct) := hplace
      exact ih less (Nat.lt_succ_self less) hchildren hbody (.tag rfl (hlegible _ he).1 rest)

/-- The message of a writable tree can be read back, joined, if the tree is
rejoinable, and only then. -/
theorem Writable.parse_print (h : Writable o o.maxNestingDepth .outside es) :
    (∃ again, parse (print es) o = .ok again ∧ joined again = joined es) ↔
      Rejoinable o false es := by
  have hread : Recovers (readAll o (print es).toList) joined (joined es) []
      (Rejoinable o false es) := by
    apply h.recoversText (s := .top) rfl .message (.start (print es).toList)
    simp [Cursor.start, print, Scope.top]
  constructor
  · rintro ⟨again, hparse, hsame⟩
    obtain ⟨d, hok⟩ := readAll_of_parse hparse
    exact hread.faithful again d hok hsame
  · intro hrejoinable
    obtain ⟨again, d, hok, hsame, -⟩ := hread.complete hrejoinable
    exact ⟨again, by rw [parse, hok], hsame⟩

end Writable

/-- A message that was read and hoisted, without being nested too deep and without
a number sign coming to stand in a select branch inside its plural, comes back
from what is written, up to locations and joined literals, exactly if nothing in it
is lost and the literals that meet can stand side by side. -/
theorem parse_print_hoisted_iff {message : String} {o : ParseOptions}
    {elements hoisted : List Element} (h : parse message o = .ok elements)
    (hhoist : hoistSelectors elements = .ok hoisted)
    (hdepth : nestingDepth hoisted ≤ o.maxNestingDepth)
    (hsigns : .hidden ∉ signPlaces .outside hoisted) :
    (∃ again, parse (print hoisted) o = .ok again ∧
        joinElements (eraseElements again) = joinElements (eraseElements hoisted)) ↔
      Reprintable hoisted ∧ joins (!o.ignoreTag) false hoisted = true := by
  have hwf := (wellFormedAt_of_parse h).elements
  have hwritable : Writable o o.maxNestingDepth .outside hoisted := by
    refine ⟨spelled_hoistSelectors hhoist (spelled_of_wellFormed hwf), ?_, hdepth⟩
    intro sign hsign
    cases sign with
    | direct => rfl
    | hidden => exact absurd hsign hsigns
    | outside =>
        have houtside := outside_of_mem_hoisted .outside hhoist hsign
        have hplace : ElementsWellFormed o 0 (SignPlace.outside == .direct) elements := hwf
        exact direct_of_mem hplace .outside houtside
  exact hwritable.parse_print.trans ⟨fun h => ⟨h.reprintable, h.joins⟩, fun h => ⟨h.1, h.2⟩⟩

/-- Literals that meet without harm, one of them a self-closing tag. -/
theorem parse_print_hoisted_around_plural :
    ∃ elements hoisted, parse "'\x7b'a {n, plural, one{# x} other{y}}<b/>" {} = .ok elements ∧
      hoistSelectors elements = .ok hoisted ∧ nestingDepth hoisted ≤ 50 ∧
      .hidden ∉ signPlaces .outside hoisted ∧
      ∃ again, parse (print hoisted) {} = .ok again ∧
        joinElements (eraseElements again) = joinElements (eraseElements hoisted) := by
  have hparse : parse "'\x7b'a {n, plural, one{# x} other{y}}<b/>" {} =
      .ok [.literal "\x7ba " (.inLine 0 5),
        .selector (.plural .cardinal 0) "n"
          [⟨"one", [.pound (.inLine 21 22), .literal " x" (.inLine 22 24)], .inLine 20 25⟩,
            ⟨"other", [.literal "y" (.inLine 32 33)], .inLine 31 34⟩] (.inLine 5 35),
        .literal "<b/>" (.inLine 35 39)] := rfl
  have hdepth : nestingDepth [.selector (.plural .cardinal 0) "n"
      [⟨"one", [.literal "\x7ba " (.inLine 0 5), .pound (.inLine 21 22),
          .literal " x" (.inLine 22 24), .literal "<b/>" (.inLine 35 39)], .inLine 20 25⟩,
        ⟨"other", [.literal "\x7ba " (.inLine 0 5), .literal "y" (.inLine 32 33),
          .literal "<b/>" (.inLine 35 39)], .inLine 31 34⟩] (.inLine 5 35)] ≤ 50 := by decide
  refine ⟨_, _, hparse, rfl, hdepth, by decide, ?_⟩
  apply (parse_print_hoisted_iff hparse rfl hdepth (by decide)).mpr
  refine ⟨?_, by decide⟩
  simp [Reprintable, BranchesReprintable, Element.Reprintable, SelectorKind.hidesOffset]

/-- An angle bracket in front of a selector meets a letter in one of its branches,
and what is written of the two is a tag that is never closed. -/
theorem parse_print_hoisted_bracket :
    ∃ elements hoisted, parse "<{n, select, a{b}}" {} = .ok elements ∧
      hoistSelectors elements = .ok hoisted ∧ nestingDepth hoisted ≤ 50 ∧
      .hidden ∉ signPlaces .outside hoisted ∧ Reprintable hoisted ∧
      ∀ again, parse (print hoisted) {} ≠ .ok again := by
  have hprint : print [.selector .select "n" [⟨"a", [.literal "<" (.inLine 0 1),
      .literal "b" (.inLine 15 16)], .inLine 14 17⟩] (.inLine 1 18)] = "{n, select, a{<b}}" := by
    decide
  have hparse : parse "{n, select, a{<b}}" {} =
      .error ⟨.invalidTag, "{n, select, a{<b}}", .inLine 14 16, none⟩ := rfl
  refine ⟨[.literal "<" (.inLine 0 1), .selector .select "n"
      [⟨"a", [.literal "b" (.inLine 15 16)], .inLine 14 17⟩] (.inLine 1 18)],
    [.selector .select "n" [⟨"a", [.literal "<" (.inLine 0 1), .literal "b" (.inLine 15 16)],
      .inLine 14 17⟩] (.inLine 1 18)], rfl, rfl, by decide, by decide, ?_, fun again hagain => ?_⟩
  · simp [Reprintable, BranchesReprintable, Element.Reprintable, SelectorKind.hidesOffset]
  · rw [hprint, hparse] at hagain
    cases hagain

end MessagePattern
