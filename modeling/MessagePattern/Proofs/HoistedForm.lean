/-
# The normal form of hoisted messages

Hoisting ends with selectors at the top and whole sentences below them: either
there is no selector at all, or the message is one selector and each of its
branches is hoisted in turn.  `Hoisted` says this of a tree, without hoisting it.
The messages that hoisting leaves alone are exactly those, so hoisting a second
time changes nothing.

The selector at the top is the first one of the message.  Hoisting gives it other
branches, but they are chosen by the same selectors in the same order.
-/

import MessagePattern.Proofs.DocumentOrder
import MessagePattern.Proofs.Erasure
import MessagePattern.Proofs.Hoisting

namespace MessagePattern

/-- There is no selector anywhere in the message, or the message is a single
selector with hoisted branches. -/
inductive Hoisted : List Element → Prop
  | plain {elements : List Element}
      (none : ∀ e ∈ documentOrder true elements, e.isSelector = false) : Hoisted elements
  | selector {kind : SelectorKind} {name : String} {branches : List (Branch Element)}
      {location : Location} (inner : ∀ b ∈ branches, Hoisted b.value) :
      Hoisted [.selector kind name branches location]

theorem hoisted_of_hoistSelectors {elements hoisted : List Element}
    (h : hoistSelectors elements = .ok hoisted) : Hoisted hoisted := by
  refine hoistSelectors_induction (P := fun _ hoisted => Hoisted hoisted) ?_ ?_ h
  · intro elements hplain
    exact .plain (containsSelector_eq_false_iff.mp hplain)
  · intro before kind name branches location after hoisted _ hspliced
    refine .selector fun b' hb' => ?_
    obtain ⟨b, -, hb⟩ := exists_splicedBranch hspliced hb'
    exact hb.value

/-- In a message without selectors there is nothing to be found. -/
theorem findObstacle_of_plain {elements : List Element}
    (h : containsSelector elements = false) : findObstacle elements = .none := by
  fun_induction findObstacle elements with
  | case1 => rfl
  | case2 kind name branches location es => cases h
  | case3 name children location es hcontains =>
      simp [containsSelector, Element.containsSelector, hcontains] at h
  | case4 _ _ _ es _ ih | case5 _ es _ _ ih =>
      rw [containsSelector, Bool.or_eq_false_iff] at h
      rw [ih h.2]
      rfl

-- No bound is needed here: where it runs out the message is left alone as well.
theorem Hoisted.hoistWithin {elements : List Element} (h : Hoisted elements) (bound : Nat) :
    hoistWithin bound elements = .ok elements := by
  induction h generalizing bound with
  | @plain elements none =>
      cases bound with
      | zero => rfl
      | succ bound =>
          rw [MessagePattern.hoistWithin,
            findObstacle_of_plain (containsSelector_eq_false_iff.mpr none)]
  | @selector kind name branches location inner ih =>
      cases bound with
      | zero => rfl
      | succ bound =>
          have hbranches : (branches.mapM fun b => do
              let value ← MessagePattern.hoistWithin bound ([] ++ b.value ++ [])
              return { b with value := value }) = .ok branches := by
            refine mapM_eq_ok_iff.mpr (List.forall₂_same.mpr fun b hb => ?_)
            rw [List.nil_append, List.append_nil, ih b hb bound]
            rfl
          rw [MessagePattern.hoistWithin]
          simp only [findObstacle, hbranches]
          rfl

/-- Hoisting changes nothing about a message that is hoisted. -/
theorem Hoisted.hoistSelectors {elements : List Element} (h : Hoisted elements) :
    hoistSelectors elements = .ok elements :=
  h.hoistWithin _

/-- Hoisting puts the first selector of a message at its top. -/
theorem hoistSelectors_first {elements hoisted : List Element}
    (h : hoistSelectors elements = .ok hoisted) {kind : SelectorKind} {name : String}
    {branches : List (Branch Element)} {location : Location}
    (hfirst : elements.find? Element.isSelector = some (.selector kind name branches location)) :
    ∃ spliced, hoisted = [.selector kind name spliced location] ∧
      spliced.map Branch.selector = branches.map Branch.selector := by
  have hnone {elements : List Element} (hplain : containsSelector elements = false) :
      elements.find? Element.isSelector = none := by
    rw [List.find?_eq_none]
    intro e he
    rw [containsSelector_eq_false_iff.mp hplain e (mem_documentOrder_of_mem he)]
    exact Bool.false_ne_true
  revert hfirst
  refine hoistSelectors_induction (P := fun elements hoisted =>
    elements.find? Element.isSelector = some (.selector kind name branches location) →
      ∃ spliced, hoisted = [.selector kind name spliced location] ∧
        spliced.map Branch.selector = branches.map Branch.selector) ?_ ?_ h
  · intro elements hplain hfirst
    rw [hnone hplain] at hfirst
    cases hfirst
  · intro before kind' name' branches' location' after hoisted hbefore hspliced hfirst
    rw [List.find?_append, hnone hbefore, Option.none_or, List.find?_cons_of_pos rfl] at hfirst
    cases hfirst
    exact ⟨hoisted, rfl, selectors_splice hspliced⟩

/-- Hoisting gives a hoisted message, in which the first selector of the message
is at the top with its selectors in the same order, and which stays the same if
it is hoisted again; and the messages that stay the same are the hoisted ones. -/
theorem hoistSelectors_normal_form (elements : List Element) :
    (∀ hoisted, hoistSelectors elements = .ok hoisted →
      Hoisted hoisted ∧
      (∀ kind name branches location,
        elements.find? Element.isSelector = some (.selector kind name branches location) →
        ∃ spliced, hoisted = [.selector kind name spliced location] ∧
          spliced.map Branch.selector = branches.map Branch.selector) ∧
      hoistSelectors hoisted = .ok hoisted) ∧
    (hoistSelectors elements = .ok elements ↔ Hoisted elements) := by
  refine ⟨fun hoisted h => ?_, hoisted_of_hoistSelectors, Hoisted.hoistSelectors⟩
  have hnormal := hoisted_of_hoistSelectors h
  exact ⟨hnormal, fun _ _ _ _ hfirst => hoistSelectors_first h hfirst, hnormal.hoistSelectors⟩

/-- An ordinal plural behind a tag, with a select in its branch and another select
behind it: the plural comes to the top with its offset, the selects below it, and
that is the end of it. -/
theorem hoistSelectors_normal_form_nested :
    ∃ hoisted,
      hoistSelectors [.tag "b" [.argument "x" .blank] .blank,
        .selector (.plural .ordinal 1) "n"
          [⟨"one", [.selector .select "g" [⟨"f", [], .blank⟩] .blank], .blank⟩] (.inLine 8 40),
        .selector .select "h" [⟨"m", [.literal "!" .blank], .blank⟩] .blank] = .ok hoisted ∧
      Hoisted hoisted ∧
      (∃ spliced, hoisted = [.selector (.plural .ordinal 1) "n" spliced (.inLine 8 40)] ∧
        spliced.map Branch.selector = ["one"]) ∧
      hoistSelectors hoisted = .ok hoisted := by
  have hoists : hoistSelectors [.tag "b" [.argument "x" .blank] .blank,
      .selector (.plural .ordinal 1) "n"
        [⟨"one", [.selector .select "g" [⟨"f", [], .blank⟩] .blank], .blank⟩] (.inLine 8 40),
      .selector .select "h" [⟨"m", [.literal "!" .blank], .blank⟩] .blank] =
      .ok [.selector (.plural .ordinal 1) "n"
        [⟨"one", [.selector .select "g"
          [⟨"f", [.selector .select "h"
            [⟨"m", [.tag "b" [.argument "x" .blank] .blank, .literal "!" .blank], .blank⟩]
            .blank], .blank⟩] .blank], .blank⟩] (.inLine 8 40)] := rfl
  obtain ⟨hnormal, hfirst, hagain⟩ := (hoistSelectors_normal_form _).1 _ hoists
  exact ⟨_, hoists, hnormal, hfirst _ _ _ _ rfl, hagain⟩

end MessagePattern
