/-
# The elements of a message in document order

What is nested in a message can be listed: every element, and behind it what its
branches or its text hold.  The elements inside tags can be left out of the list.
The list is the plain meaning of "somewhere in the message", and the functions
that look for something in a tree by a recursion of their own are compared with
it here.
-/

import MessagePattern.Hoist

namespace MessagePattern

mutual

/-- An element and what is nested in it, in document order.  What is nested in
tags is listed only if `inTags` says so. -/
def Element.documentOrder (inTags : Bool) : Element → List Element
  | .selector kind name branches location =>
    .selector kind name branches location :: documentOrderBranches inTags branches
  | .tag name children location =>
    .tag name children location :: if inTags then documentOrder inTags children else []
  | .literal text location => [.literal text location]
  | .argument name location => [.argument name location]
  | .number name style location => [.number name style location]
  | .dateTime kind name style location => [.dateTime kind name style location]
  | .pound location => [.pound location]

/-- All elements of a list and what is nested in them. -/
def documentOrder (inTags : Bool) : List Element → List Element
  | [] => []
  | e :: es => e.documentOrder inTags ++ documentOrder inTags es

/-- All elements of the branches of a selector and what is nested in them. -/
def documentOrderBranches (inTags : Bool) : List (Branch Element) → List Element
  | [] => []
  | ⟨_, value, _⟩ :: branches => documentOrder inTags value ++ documentOrderBranches inTags branches

end

section

variable {inTags : Bool}

theorem documentOrder_append (first second : List Element) :
    documentOrder inTags (first ++ second) =
      documentOrder inTags first ++ documentOrder inTags second := by
  induction first with
  | nil => rfl
  | cons e es ih => rw [List.cons_append, documentOrder, documentOrder, ih, List.append_assoc]

theorem mem_documentOrderBranches {e : Element} {branches : List (Branch Element)} :
    e ∈ documentOrderBranches inTags branches ↔
      ∃ b ∈ branches, e ∈ documentOrder inTags b.value := by
  induction branches with
  | nil => simp [documentOrderBranches]
  | cons b branches ih => simp [documentOrderBranches, ih]

/-- What surrounds a selector, the selector itself, and what its branches hold. -/
theorem mem_documentOrder_selector {e : Element} {before after : List Element}
    {kind : SelectorKind} {name : String} {branches : List (Branch Element)}
    {location : Location} :
    e ∈ documentOrder inTags (before ++ .selector kind name branches location :: after) ↔
      e ∈ documentOrder inTags before ∨ e = .selector kind name branches location ∨
        (∃ b ∈ branches, e ∈ documentOrder inTags b.value) ∨ e ∈ documentOrder inTags after := by
  simp only [documentOrder_append, documentOrder, Element.documentOrder, List.mem_append,
    List.mem_cons, mem_documentOrderBranches, or_assoc]

theorem mem_documentOrder_of_mem {e : Element} {es : List Element} (h : e ∈ es) :
    e ∈ documentOrder inTags es := by
  have hself : e ∈ e.documentOrder inTags := by
    cases e <;> exact List.mem_cons_self
  obtain ⟨before, after, rfl⟩ := List.append_of_mem h
  simp only [documentOrder_append, documentOrder, List.mem_append]
  exact .inr (.inl hself)

end

mutual

theorem Element.mem_documentOrder_of_tag {e : Element} {name : String} {children : List Element}
    {location : Location} (he : e ∈ documentOrder true children) :
    ∀ around : Element, .tag name children location ∈ around.documentOrder true →
      e ∈ around.documentOrder true
  | .selector _ _ branches _, h => by
      rcases List.mem_cons.mp h with hself | hinner
      · cases hself
      · exact List.mem_cons_of_mem _ (mem_documentOrderBranches_of_tag he branches hinner)
  | .tag _ inner _, h => by
      rcases List.mem_cons.mp h with hself | hinner
      · cases hself
        exact List.mem_cons_of_mem _ he
      · exact List.mem_cons_of_mem _ (mem_documentOrder_of_tag he inner hinner)
  | .literal _ _, h | .argument _ _, h | .number _ _ _, h | .dateTime _ _ _ _, h | .pound _, h => by
      cases List.mem_singleton.mp h

/-- What is somewhere in a tag is somewhere in whatever the tag is in. -/
theorem mem_documentOrder_of_tag {e : Element} {name : String} {children : List Element}
    {location : Location} (he : e ∈ documentOrder true children) :
    ∀ around : List Element, .tag name children location ∈ documentOrder true around →
      e ∈ documentOrder true around
  | [], h => nomatch h
  | first :: around, h => by
      rcases List.mem_append.mp h with hfirst | hrest
      · exact List.mem_append_left _ (Element.mem_documentOrder_of_tag he first hfirst)
      · exact List.mem_append_right _ (mem_documentOrder_of_tag he around hrest)

theorem mem_documentOrderBranches_of_tag {e : Element} {name : String} {children : List Element}
    {location : Location} (he : e ∈ documentOrder true children) :
    ∀ around : List (Branch Element),
      .tag name children location ∈ documentOrderBranches true around →
      e ∈ documentOrderBranches true around
  | [], h => nomatch h
  | ⟨_, value, _⟩ :: around, h => by
      rcases List.mem_append.mp h with hfirst | hrest
      · exact List.mem_append_left _ (mem_documentOrder_of_tag he value hfirst)
      · exact List.mem_append_right _ (mem_documentOrderBranches_of_tag he around hrest)

end

/-! ## Selectors -/

mutual

theorem Element.containsSelector_eq_any :
    ∀ e : Element, e.containsSelector = (e.documentOrder true).any Element.isSelector
  | .selector _ _ _ _ => rfl
  | .tag _ children _ => containsSelector_eq_any children
  | .literal _ _ => rfl
  | .argument _ _ => rfl
  | .number _ _ _ => rfl
  | .dateTime _ _ _ _ => rfl
  | .pound _ => rfl

/-- The search for a selector through tags finds one wherever there is one: what
stands in a branch has a selector around it. -/
theorem containsSelector_eq_any :
    ∀ es : List Element, containsSelector es = (documentOrder true es).any Element.isSelector
  | [] => rfl
  | e :: es => by
      rw [containsSelector, documentOrder, List.any_append, Element.containsSelector_eq_any e,
        containsSelector_eq_any es]

end

theorem containsSelector_iff {es : List Element} :
    containsSelector es = true ↔ ∃ e ∈ documentOrder true es, e.isSelector = true := by
  rw [containsSelector_eq_any, List.any_eq_true]

theorem containsSelector_eq_false_iff {es : List Element} :
    containsSelector es = false ↔ ∀ e ∈ documentOrder true es, e.isSelector = false := by
  rw [containsSelector_eq_any, List.any_eq_false]
  simp only [Bool.not_eq_true]

end MessagePattern
