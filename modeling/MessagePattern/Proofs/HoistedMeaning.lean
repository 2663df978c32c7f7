/-
# Hoisting keeps what a message says

What a message says depends on which branch each of its selectors is resolved to.
A `Choice` fixes this for all selectors at once, by what a selector tells about
itself, and `resolve` is what is left of a message then: literals, arguments,
number signs and tags, in order and with their locations.  Hoisting copies
elements and moves branches, but under every choice it leaves the same.
-/

import MessagePattern.Proofs.Erasure
import MessagePattern.Proofs.Hoisting

namespace MessagePattern

/-- What a selector tells about itself, apart from what its branches say. -/
structure Header where
  /-- Plural, with its type and offset, or select. -/
  kind : SelectorKind
  name : String
  /-- The selectors of the branches, in order. -/
  selectors : List String
  location : Location

/-- A choice of one selector for every header that offers any. -/
structure Choice where
  pick : Header → String
  pick_mem : ∀ header, header.selectors ≠ [] → pick header ∈ header.selectors

mutual

/-- What is left of an element when every selector is replaced by the branch that
was chosen, and the selectors in that branch in turn. -/
def Element.resolve (c : Choice) : Element → List Element
  | .selector kind name branches location =>
    resolveBranches c (c.pick ⟨kind, name, branches.map Branch.selector, location⟩) branches
  | .literal text location => [.literal text location]
  | .argument name location => [.argument name location]
  | .number name style location => [.number name style location]
  | .dateTime kind name style location => [.dateTime kind name style location]
  | .pound location => [.pound location]
  | .tag name children location => [.tag name children location]

/-- What is left of a list of elements. -/
def resolve (c : Choice) : List Element → List Element
  | [] => []
  | e :: es => e.resolve c ++ resolve c es

/-- What is left of the branch with the given selector. -/
def resolveBranches (c : Choice) (selector : String) : List (Branch Element) → List Element
  | [] => []
  | ⟨candidate, value, _⟩ :: branches =>
    if candidate = selector then resolve c value else resolveBranches c selector branches

end

section Resolve

variable (c : Choice)

theorem resolve_append (first second : List Element) :
    resolve c (first ++ second) = resolve c first ++ resolve c second := by
  induction first with
  | nil => rfl
  | cons e es ih => rw [List.cons_append, resolve, resolve, ih, List.append_assoc]

/-- Branches that were spliced say what the branches said, between what was in
front of the selector and what was behind it. -/
theorem resolveBranches_splice {before after : List Element}
    {branches hoisted : List (Branch Element)} {selector : String}
    (h : List.Forall₂ (SplicedBranch (fun elements hoisted => Branching elements →
      resolve c hoisted = resolve c elements) before after) branches hoisted)
    (hbranching : ∀ b ∈ branches, Branching (before ++ b.value ++ after))
    (hmem : selector ∈ branches.map Branch.selector) :
    resolveBranches c selector hoisted =
      resolve c before ++ resolveBranches c selector branches ++ resolve c after := by
  induction h with
  | nil => cases hmem
  | @cons b b' branches hoisted hfirst hrest ih =>
      rw [resolveBranches, resolveBranches, hfirst.selector]
      by_cases hchosen : b.selector = selector
      · have hvalue := hfirst.value (hbranching b List.mem_cons_self)
        rw [if_pos hchosen, if_pos hchosen, hvalue, resolve_append, resolve_append]
      · rw [if_neg hchosen, if_neg hchosen]
        exact ih (fun b hb => hbranching b (List.mem_cons_of_mem _ hb))
          ((List.mem_cons.mp hmem).resolve_left fun heq => hchosen heq.symm)

/-- Under every choice a hoisted message leaves the elements that the message
leaves, in the same order and with the same locations. -/
theorem resolve_hoistSelectors {elements hoisted : List Element} (hbranching : Branching elements)
    (h : hoistSelectors elements = .ok hoisted) : resolve c hoisted = resolve c elements := by
  revert hbranching
  refine hoistSelectors_induction (P := fun elements hoisted => Branching elements →
    resolve c hoisted = resolve c elements) (fun _ _ _ => rfl) ?_ h
  intro before kind name branches location after hoisted _ hspliced hbranching
  obtain ⟨-, ⟨hne, -⟩, -⟩ := branching_append.mp hbranching
  -- Both selectors have the same header, so the same selector is picked.
  have hpick := c.pick_mem ⟨kind, name, branches.map Branch.selector, location⟩ (by simpa using hne)
  simp only [resolve_append, resolve, Element.resolve, selectors_splice hspliced, List.append_nil,
    resolveBranches_splice c hspliced (fun b hb => hbranching.splice hb) hpick, List.append_assoc]

end Resolve

/-- The choice of the last selector. -/
def Choice.last : Choice where
  pick header := header.selectors.getLast?.getD ""
  pick_mem header h := by simp [List.getLast?_eq_some_getLast h]

/-- Two selectors side by side become two selectors one inside the other, and the
same is left of them. -/
theorem resolve_hoistSelectors_siblings :
    resolve .last [.selector .select "g"
        [⟨"a", [.selector (.plural .cardinal 0) "n"
          [⟨"one", [.literal "x" (.inLine 14 15), .pound (.inLine 33 34)], .inLine 32 35⟩]
          (.inLine 17 36)], .inLine 13 16⟩] (.inLine 0 17)] =
      resolve .last
        [.selector .select "g" [⟨"a", [.literal "x" (.inLine 14 15)], .inLine 13 16⟩]
          (.inLine 0 17),
        .selector (.plural .cardinal 0) "n" [⟨"one", [.pound (.inLine 33 34)], .inLine 32 35⟩]
          (.inLine 17 36)] := by
  apply resolve_hoistSelectors
  · simp [Branching, Element.Branching, BranchesBranching]
  · rfl

end MessagePattern
