/-
# Hoisting keeps the variables of a message

Hoisting copies what surrounds a selector into each of its branches, so a name
may occur more often afterwards and in another order.  But no name comes in or
is lost and none changes its type, as long as every selector has a branch to
take the copies.  To the comparison of messages by their variables a hoisted
message is therefore the same as the message itself.
-/

import MessagePattern.Proofs.Comparison
import MessagePattern.Proofs.Erasure
import MessagePattern.Proofs.Hoisting

namespace MessagePattern

theorem typedNames_append (first second : List Element) :
    typedNames (first ++ second) = typedNames first ++ typedNames second := by
  induction first with
  | nil => rfl
  | cons e es ih => rw [List.cons_append, typedNames, typedNames, ih, List.append_assoc]

theorem mem_typedNamesBranches {p : String × ElementType} {branches : List (Branch Element)} :
    p ∈ typedNamesBranches branches ↔ ∃ b ∈ branches, p ∈ typedNames b.value := by
  induction branches with
  | nil => simp [typedNamesBranches]
  | cons b branches ih => simp [typedNamesBranches, ih]

/-- The type under which a selector names its argument. -/
def SelectorKind.elementType : SelectorKind → ElementType
  | .plural _ _ => .plural
  | .select => .select

/-- A selector uses its own name and those that its branches use. -/
theorem mem_typedNames_selector {p : String × ElementType} {kind : SelectorKind} {name : String}
    {branches : List (Branch Element)} {location : Location} :
    p ∈ (Element.selector kind name branches location).typedNames ↔
      p = (name, kind.elementType) ∨ ∃ b ∈ branches, p ∈ typedNames b.value := by
  cases kind <;>
    simp only [Element.typedNames, SelectorKind.elementType, List.mem_cons, mem_typedNamesBranches]

/-- The branches that hoisting makes use together what the branches used and what
surrounded the selector. -/
theorem exists_mem_typedNames_splice {before after : List Element}
    {branches hoisted : List (Branch Element)} {p : String × ElementType}
    (h : List.Forall₂ (SplicedBranch (fun elements hoisted => Branching elements →
      (p ∈ typedNames hoisted ↔ p ∈ typedNames elements)) before after) branches hoisted)
    (hbranching : ∀ b ∈ branches, Branching (before ++ b.value ++ after)) :
    (∃ b ∈ hoisted, p ∈ typedNames b.value) ↔
      ∃ b ∈ branches, p ∈ typedNames (before ++ b.value ++ after) := by
  induction h with
  | nil => simp
  | @cons b b' branches hoisted hfirst _ ih =>
      have hvalue := hfirst.value (hbranching b List.mem_cons_self)
      have hrest := ih fun b hb => hbranching b (List.mem_cons_of_mem _ hb)
      simp only [List.mem_cons, exists_eq_or_imp, hvalue, hrest]

/-- A name with a type occurs in a hoisted message exactly if it occurs in the
message. -/
theorem mem_typedNames_hoistSelectors {elements hoisted : List Element}
    (hbranching : Branching elements) (h : hoistSelectors elements = .ok hoisted)
    (p : String × ElementType) : p ∈ typedNames hoisted ↔ p ∈ typedNames elements := by
  revert hbranching
  refine hoistSelectors_induction (P := fun elements hoisted => Branching elements →
    (p ∈ typedNames hoisted ↔ p ∈ typedNames elements)) (fun _ _ _ => Iff.rfl) ?_ h
  intro before kind name branches location after hoisted _ hspliced hbranching
  obtain ⟨-, ⟨hne, -⟩, -⟩ := branching_append.mp hbranching
  -- What surrounds the selector is kept by the copy in any one of its branches.
  obtain ⟨b, hb⟩ := List.exists_mem_of_ne_nil branches hne
  have hbranches := exists_mem_typedNames_splice hspliced fun b hb => hbranching.splice hb
  simp only [typedNames, typedNames_append, List.mem_append, List.append_nil,
    mem_typedNames_selector] at hbranches ⊢
  rw [hbranches]
  constructor
  · rintro (hname | ⟨b, hb, (hbefore | hvalue) | hafter⟩)
    · exact .inr (.inl (.inl hname))
    · exact .inl hbefore
    · exact .inr (.inl (.inr ⟨b, hb, hvalue⟩))
    · exact .inr (.inr hafter)
  · rintro (hbefore | (hname | ⟨b, hb, hvalue⟩) | hafter)
    · exact .inr ⟨b, hb, .inl (.inl hbefore)⟩
    · exact .inl hname
    · exact .inr ⟨b, hb, .inl (.inr hvalue)⟩
    · exact .inr ⟨b, hb, .inr hafter⟩

/-- A message and what hoisting makes of it are structurally the same as the same
messages, from either side, and so the same as each other unless the message
uses a name with two types. -/
theorem structurallySame_hoistSelectors {elements hoisted : List Element}
    (hbranching : Branching elements) (h : hoistSelectors elements = .ok hoisted) :
    (∀ other,
      (structurallySame elements other = .ok () ↔ structurallySame hoisted other = .ok ()) ∧
      (structurallySame other elements = .ok () ↔ structurallySame other hoisted = .ok ())) ∧
    ((∀ name type type', (name, type) ∈ typedNames elements →
        (name, type') ∈ typedNames elements → type = type') →
      structurallySame elements hoisted = .ok ()) := by
  have hnames := mem_typedNames_hoistSelectors hbranching h
  have hone := unambiguous_congr hnames
  refine ⟨fun other => ⟨?_, ?_⟩, fun hunambiguous => ?_⟩
  · simp only [structurallySame_eq_ok_iff, hnames, hone]
  · simp only [structurallySame_eq_ok_iff, hnames, hone]
  · exact structurallySame_eq_ok_iff.mpr
      ⟨hunambiguous, hone.mpr hunambiguous, fun p => (hnames p).symm⟩

/-- Two plurals side by side with text in between: hoisting puts the second into
both branches of the first, and nothing changes for the comparison. -/
theorem structurallySame_hoistSelectors_siblings :
    structurallySame
      [.selector (.plural .cardinal 0) "n" [⟨"one", [.pound .blank], .blank⟩,
          ⟨"other", [.argument "user" .blank], .blank⟩] .blank,
        .literal " of " .blank,
        .selector .select "g" [⟨"f", [.tag "b" [.number "m" none .blank] .blank], .blank⟩] .blank]
      [.selector (.plural .cardinal 0) "n"
        [⟨"one", [.selector .select "g" [⟨"f", [.pound .blank, .literal " of " .blank,
            .tag "b" [.number "m" none .blank] .blank], .blank⟩] .blank], .blank⟩,
          ⟨"other", [.selector .select "g" [⟨"f", [.argument "user" .blank,
            .literal " of " .blank, .tag "b" [.number "m" none .blank] .blank], .blank⟩]
            .blank], .blank⟩] .blank] = .ok () := by
  refine (structurallySame_hoistSelectors ?_ rfl).2 ?_
  · simp [Branching, BranchesBranching, Element.Branching]
  · intro name type type' hmem hmem'
    simp only [typedNames, Element.typedNames, typedNamesBranches] at hmem hmem'
    grind

end MessagePattern
