/-
# Messages that cannot be hoisted

A selector inside a tag cannot be lifted out of it, and this is the only reason
for hoisting to fail.  Hoisting looks at a message only up to its first selector
and sees the rest in the copies that are spliced together for the branches; but
each part of the message gets into one of them, as long as every selector has a
branch, so no tag with a selector in it is passed over.

The tag that is reported is one outside all other tags.  A tag inside it may hold
the selector just as well, but hoisting never looks for it there.
-/

import MessagePattern.Proofs.DocumentOrder
import MessagePattern.Proofs.Erasure
import MessagePattern.Proofs.Hoisting

namespace MessagePattern

/-- There is a selector somewhere in the text. -/
def HoldsSelector (elements : List Element) : Prop :=
  ∃ e ∈ documentOrder true elements, e.isSelector = true

/-- What is spliced together for a branch holds what surrounded the selector and
what the branch holds. -/
theorem mem_documentOrder_splice {inTags : Bool} {e : Element} {before value after : List Element} :
    e ∈ documentOrder inTags (before ++ value ++ after) ↔
      e ∈ documentOrder inTags before ∨ e ∈ documentOrder inTags value ∨
        e ∈ documentOrder inTags after := by
  simp only [documentOrder_append, List.mem_append, or_assoc]

/-- A tag that hoisting reports has a selector in it.  It is found whether or not
tags are looked into. -/
theorem exists_tag_of_error (inTags : Bool) {elements : List Element} {culprit : String}
    (h : hoistSelectors elements = .error (.selectorInsideTag culprit)) :
    ∃ children location, .tag culprit children location ∈ documentOrder inTags elements ∧
      HoldsSelector children := by
  refine hoistSelectors_error_induction (P := fun elements culprit =>
    ∃ children location, .tag culprit children location ∈ documentOrder inTags elements ∧
      HoldsSelector children) ?_ ?_ h
  · intro elements name children location hmem hcontains
    exact ⟨children, location, mem_documentOrder_of_mem hmem, containsSelector_iff.mp hcontains⟩
  · rintro before kind name branches location after b hb culprit ⟨children, place, hmem, holds⟩
    refine ⟨children, place, mem_documentOrder_selector.mpr ?_, holds⟩
    rcases mem_documentOrder_splice.mp hmem with hbefore | hvalue | hafter
    · exact .inl hbefore
    · exact .inr (.inr (.inl ⟨b, hb, hvalue⟩))
    · exact .inr (.inr (.inr hafter))

/-- No tag of a message that can be hoisted has a selector in it. -/
theorem not_holdsSelector_of_ok {elements hoisted : List Element} (hbranching : Branching elements)
    (h : hoistSelectors elements = .ok hoisted) {name : String} {children : List Element}
    {location : Location} (htag : .tag name children location ∈ documentOrder true elements) :
    ¬ HoldsSelector children := by
  revert hbranching htag
  refine hoistSelectors_induction (P := fun elements _ => Branching elements →
    .tag name children location ∈ documentOrder true elements → ¬ HoldsSelector children)
    ?_ ?_ h
  · rintro elements hplain - htag ⟨e, he, hselector⟩
    have hnone := containsSelector_eq_false_iff.mp hplain e (mem_documentOrder_of_tag he _ htag)
    exact Bool.false_ne_true (hnone.symm.trans hselector)
  · intro before kind name' branches location' after hoisted _ hspliced hbranching htag
    obtain ⟨-, ⟨hne, -⟩, -⟩ := branching_append.mp hbranching
    -- Some branch got a copy of the part that the tag is in.
    have hbranch : ∃ b ∈ branches,
        .tag name children location ∈ documentOrder true (before ++ b.value ++ after) := by
      obtain ⟨b, hb⟩ := List.exists_mem_of_ne_nil branches hne
      simp only [mem_documentOrder_splice]
      rcases mem_documentOrder_selector.mp htag with hbefore | hself | ⟨b, hb, hvalue⟩ | hafter
      · exact ⟨b, hb, .inl hbefore⟩
      · cases hself
      · exact ⟨b, hb, .inr (.inl hvalue)⟩
      · exact ⟨b, hb, .inr (.inr hafter)⟩
    obtain ⟨b, hb, hcopy⟩ := hbranch
    obtain ⟨b', -, hvalue⟩ := exists_replacement hspliced hb
    exact hvalue.value (hbranching.splice hb) hcopy

/-- A message in which every selector has a branch fails to be hoisted exactly if
there is a selector somewhere in one of its tags; and the tag that is reported is
such a tag, and stands outside all others. -/
theorem hoistSelectors_fails_iff {elements : List Element} (hbranching : Branching elements) :
    ((∃ error, hoistSelectors elements = .error error) ↔
      ∃ name children location, .tag name children location ∈ documentOrder true elements ∧
        HoldsSelector children) ∧
    ∀ culprit, hoistSelectors elements = .error (.selectorInsideTag culprit) →
      ∃ children location, .tag culprit children location ∈ documentOrder false elements ∧
        HoldsSelector children := by
  refine ⟨⟨?_, ?_⟩, fun culprit h => exists_tag_of_error false h⟩
  · rintro ⟨⟨culprit⟩, h⟩
    obtain ⟨children, location, htag, holds⟩ := exists_tag_of_error true h
    exact ⟨culprit, children, location, htag, holds⟩
  · rintro ⟨name, children, location, htag, holds⟩
    cases h : hoistSelectors elements with
    | error error => exact ⟨error, rfl⟩
    | ok hoisted => exact absurd holds (not_holdsSelector_of_ok hbranching h htag)

/-- The selector is in a tag in a tag, behind a selector that can be lifted: the
outer tag is reported. -/
theorem hoistSelectors_fails_outer_tag :
    hoistSelectors [.selector .select "g" [⟨"f", [.literal "x" .blank], .blank⟩] .blank,
        .tag "a" [.tag "b" [.selector .select "h" [⟨"m", [], .blank⟩] .blank] .blank] .blank] =
      .error (.selectorInsideTag "a") ∧
    ∃ children location, .tag "a" children location ∈ documentOrder false
        [.selector .select "g" [⟨"f", [.literal "x" .blank], .blank⟩] .blank,
          .tag "a" [.tag "b" [.selector .select "h" [⟨"m", [], .blank⟩] .blank] .blank] .blank] ∧
      HoldsSelector children := by
  refine ⟨rfl, (hoistSelectors_fails_iff ?_).2 "a" rfl⟩
  simp [Branching, BranchesBranching, Element.Branching]

end MessagePattern
