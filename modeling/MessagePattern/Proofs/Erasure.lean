/-
# Trees without locations

Two readings of the same tree from different texts differ in their locations and
in nothing else.  Erasing puts one blank location everywhere: at elements, at
branches and at skeletons.  Trees are equal up to locations if they are equal
when erased.

Being well formed and being written faithfully are properties of the erased
tree.
-/

import MessagePattern.Proofs.Canonical

namespace MessagePattern

/-- The location that stands for no location. -/
def Location.blank : Location := .point .start

/-- The location between two offsets of a message that is one line of narrow
scalars. -/
def Location.inLine (start stop : Nat) : Location :=
  ⟨⟨start, 1, start + 1⟩, ⟨stop, 1, stop + 1⟩⟩

/-- A number style without the location of its skeleton. -/
def eraseNumberStyle : Style NumberSkeleton → Style NumberSkeleton
  | .text name => .text name
  | .skeleton k => .skeleton { k with location := .blank }

/-- A date or time style without the location of its skeleton. -/
def eraseDateTimeStyle : Style DateTimeSkeleton → Style DateTimeSkeleton
  | .text name => .text name
  | .skeleton k => .skeleton { k with location := .blank }

mutual

/-- An element without its locations. -/
def Element.erase : Element → Element
  | .literal text _ => .literal text .blank
  | .argument name _ => .argument name .blank
  | .number name style _ => .number name (style.map eraseNumberStyle) .blank
  | .dateTime kind name style _ => .dateTime kind name (style.map eraseDateTimeStyle) .blank
  | .selector kind name branches _ => .selector kind name (eraseBranches branches) .blank
  | .pound _ => .pound .blank
  | .tag name children _ => .tag name (eraseElements children) .blank

/-- A list of elements without their locations. -/
def eraseElements : List Element → List Element
  | [] => []
  | e :: es => e.erase :: eraseElements es

/-- Branches without their locations. -/
def eraseBranches : List (Branch Element) → List (Branch Element)
  | [] => []
  | ⟨selector, value, _⟩ :: branches =>
    ⟨selector, eraseElements value, .blank⟩ :: eraseBranches branches

end

/-! ## Nested texts, seen in some way -/

/-- Branches without their locations, with their texts seen through `view`. -/
def seenBranches (view : List Element → List Element) (branches : List (Branch Element)) :
    List (Branch Element) :=
  branches.map fun b => ⟨b.selector, view b.value, .blank⟩

theorem seenBranches_cons (view : List Element → List Element) (b : Branch Element)
    (branches : List (Branch Element)) :
    seenBranches view (b :: branches) =
      ⟨b.selector, view b.value, .blank⟩ :: seenBranches view branches := rfl

/-- An element without its locations, with the texts in it seen through `view`. -/
def Element.seen (view : List Element → List Element) : Element → Element
  | .selector kind name branches _ => .selector kind name (seenBranches view branches) .blank
  | .tag name children _ => .tag name (view children) .blank
  | e => e.erase

/-- Whether no texts are nested in the element. -/
def Element.isFlat : Element → Bool
  | .selector _ _ _ _ | .tag _ _ _ => false
  | _ => true

theorem seenBranches_eraseElements (branches : List (Branch Element)) :
    seenBranches eraseElements branches = eraseBranches branches := by
  induction branches with
  | nil => rfl
  | cons b branches ih => exact congrArg (_ :: ·) ih

@[simp] theorem Element.seen_eraseElements (e : Element) : e.seen eraseElements = e.erase := by
  cases e with
  | selector kind name branches location =>
      simp only [Element.seen, Element.erase, seenBranches_eraseElements]
  | _ => rfl

theorem name?_erase (e : Element) : e.erase.name? = e.name? := by
  cases e <;> rfl

/-- How nested texts are seen makes no difference where there are none. -/
theorem Element.seen_eq_iff {view : List Element → List Element} {e : Element}
    (h : e.isFlat = true) (e' : Element) : e'.seen view = e.seen view ↔ e'.erase = e.erase := by
  cases e with
  | selector | tag => cases h
  | _ => cases e' <;> simp [Element.seen, Element.erase]

theorem map_selector_seenBranches (view : List Element → List Element)
    (branches : List (Branch Element)) :
    (seenBranches view branches).map Branch.selector = branches.map Branch.selector := by
  simp [seenBranches]

theorem map_selector_eraseBranches (branches : List (Branch Element)) :
    (eraseBranches branches).map Branch.selector = branches.map Branch.selector := by
  rw [← seenBranches_eraseElements, map_selector_seenBranches]

theorem mayMeet_erase (o : ParseOptions) (a b : Element) :
    MayMeet o a.erase b.erase ↔ MayMeet o a b := by
  cases a <;> cases b <;> simp only [Element.erase, MayMeet]

theorem isChain_eraseElements (o : ParseOptions) (es : List Element) :
    (eraseElements es).IsChain (MayMeet o) ↔ es.IsChain (MayMeet o) := by
  have hmap : eraseElements es = es.map Element.erase := by
    induction es with
    | nil => rfl
    | cons e es ih => simp [eraseElements, ih]
  rw [hmap, List.isChain_map]
  simp only [mayMeet_erase]

theorem numberStyleWellFormed_erase (o : ParseOptions) (style : Style NumberSkeleton) :
    NumberStyleWellFormed o (eraseNumberStyle style) ↔ NumberStyleWellFormed o style := by
  cases style with
  | text name => exact Iff.rfl
  | skeleton k =>
      constructor <;> exact fun ⟨nonempty, distinct, balanced, parsed⟩ =>
        ⟨nonempty, distinct, balanced, parsed⟩

theorem dateTimeStyleWellFormed_erase (o : ParseOptions) (style : Style DateTimeSkeleton) :
    DateTimeStyleWellFormed o (eraseDateTimeStyle style) ↔ DateTimeStyleWellFormed o style := by
  cases style with
  | text name => exact Iff.rfl
  | skeleton k =>
      constructor <;> exact fun ⟨nonempty, trimmed, balanced, parsed⟩ =>
        ⟨nonempty, trimmed, balanced, parsed⟩

mutual

/-- An element is well formed or not whatever its locations are. -/
theorem wellFormed_erase (o : ParseOptions) (level : Nat) (inPlural : Bool) :
    ∀ e : Element, e.erase.WellFormed o level inPlural ↔ e.WellFormed o level inPlural
  | .literal _ _ => by simp only [Element.erase, Element.WellFormed]
  | .argument _ _ => by simp only [Element.erase, Element.WellFormed]
  | .number _ style _ => by
      cases style <;>
        simp [Element.erase, Element.WellFormed, numberStyleWellFormed_erase]
  | .dateTime _ _ style _ => by
      cases style <;>
        simp [Element.erase, Element.WellFormed, dateTimeStyleWellFormed_erase]
  | .selector kind _ branches _ => by
      simp only [Element.erase, Element.WellFormed, map_selector_eraseBranches,
        branchesWellFormed_erase o (level + 1) kind.isPlural branches]
  | .pound _ => by simp only [Element.erase, Element.WellFormed]
  | .tag _ children _ => by
      simp only [Element.erase, Element.WellFormed, isChain_eraseElements,
        elementsWellFormed_erase o (level + 1) inPlural children]

theorem elementsWellFormed_erase (o : ParseOptions) (level : Nat) (inPlural : Bool) :
    ∀ es : List Element,
      ElementsWellFormed o level inPlural (eraseElements es) ↔
        ElementsWellFormed o level inPlural es
  | [] => Iff.rfl
  | e :: es => by
      simp only [eraseElements, ElementsWellFormed, wellFormed_erase o level inPlural e,
        elementsWellFormed_erase o level inPlural es]

theorem branchesWellFormed_erase (o : ParseOptions) (level : Nat) (inPlural : Bool) :
    ∀ branches : List (Branch Element),
      BranchesWellFormed o level inPlural (eraseBranches branches) ↔
        BranchesWellFormed o level inPlural branches
  | [] => Iff.rfl
  | ⟨_, value, _⟩ :: branches => by
      simp only [eraseBranches, BranchesWellFormed, isChain_eraseElements,
        elementsWellFormed_erase o level inPlural value,
        branchesWellFormed_erase o level inPlural branches]

end

/-- Trees that are equal up to locations are well formed together. -/
theorem WellFormedAt.of_erase_eq {o : ParseOptions} {level : Nat} {inPlural : Bool}
    {first second : List Element} (same : eraseElements first = eraseElements second)
    (h : WellFormedAt o level inPlural first) : WellFormedAt o level inPlural second where
  level_le := h.level_le
  apart := by
    rw [← isChain_eraseElements, ← same, isChain_eraseElements]
    exact h.apart
  elements := by
    rw [← elementsWellFormed_erase, ← same, elementsWellFormed_erase]
    exact h.elements

end MessagePattern
