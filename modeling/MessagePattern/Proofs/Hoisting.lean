/-
# How a message is hoisted

Hoisting either leaves a list of elements alone, because there is no selector in
it, or makes its first selector the whole message and goes on with what is
spliced together for each branch.  `hoistSelectors_induction` is the induction
over these steps, freed from the bound on the number of selectors: to prove a
property of all messages that can be hoisted, show it of messages without
selectors and carry it over one step.
-/

import MessagePattern.Hoist
import MessagePattern.Proofs.Outcome

namespace MessagePattern

theorem selectorCount_append (first second : List Element) :
    selectorCount (first ++ second) = selectorCount first + selectorCount second := by
  induction first with
  | nil => simp [selectorCount]
  | cons e es ih =>
      rw [List.cons_append, selectorCount, selectorCount, ih]
      omega

mutual

theorem Element.containsSelector_of_count :
    ∀ {e : Element}, e.selectorCount = 0 → e.containsSelector = false
  | .selector _ _ _ _, h => absurd h (by simp [Element.selectorCount])
  | .tag _ children _, h => containsSelector_of_count (show selectorCount children = 0 from h)
  | .literal _ _, _ => rfl
  | .argument _ _, _ => rfl
  | .number _ _ _, _ => rfl
  | .dateTime _ _ _ _, _ => rfl
  | .pound _, _ => rfl

/-- Where no selectors are counted, none is found. -/
theorem containsSelector_of_count :
    ∀ {es : List Element}, selectorCount es = 0 → containsSelector es = false
  | [], _ => rfl
  | e :: es, h => by
      rw [selectorCount, Nat.add_eq_zero_iff] at h
      rw [containsSelector, Element.containsSelector_of_count h.1, containsSelector_of_count h.2]
      rfl

end

/-- What the search for the first selector tells about a list of elements. -/
def Obstacle.Describes : Obstacle → List Element → Prop
  | .none, elements => containsSelector elements = false
  | .tag _, _ => True
  | .selector before kind name branches location after, elements =>
    elements = before ++ .selector kind name branches location :: after ∧
      containsSelector before = false

theorem Obstacle.Describes.behind {obstacle : Obstacle} {elements : List Element}
    (h : obstacle.Describes elements) {e : Element} (he : e.containsSelector = false) :
    (obstacle.behind e).Describes (e :: elements) := by
  cases obstacle with
  | none =>
      have hnone : containsSelector elements = false := h
      have hall : containsSelector (e :: elements) = false := by simp [containsSelector, he, hnone]
      exact hall
  | tag name => trivial
  | selector before kind name branches location after =>
      obtain ⟨rfl, hbefore⟩ := h
      exact ⟨rfl, by simp [containsSelector, he, hbefore]⟩

theorem findObstacle_describes (elements : List Element) :
    (findObstacle elements).Describes elements := by
  fun_induction findObstacle elements with
  | case1 => rfl
  | case2 kind name branches location es => exact ⟨rfl, rfl⟩
  | case3 name children location es hcontains => trivial
  | case4 name children location es hcontains ih =>
      exact ih.behind (by simpa [Element.containsSelector] using hcontains)
  | case5 e es hselector htag ih =>
      apply ih.behind
      cases e with
      | selector kind name branches location =>
          exact absurd rfl (hselector kind name branches location)
      | tag name children location => exact absurd rfl (htag name children location)
      | _ => rfl

theorem selectorCount_le_of_mem {b : Branch Element} {branches : List (Branch Element)}
    (h : b ∈ branches) : selectorCount b.value ≤ selectorCountBranches branches := by
  induction branches with
  | nil => cases h
  | cons first branches ih =>
      rw [selectorCountBranches]
      rcases List.mem_cons.mp h with rfl | hmem
      · exact Nat.le_add_right _ _
      · exact Nat.le_trans (ih hmem) (Nat.le_add_left _ _)

/-- What is spliced together for a branch has fewer selectors than the list that
it was taken from. -/
theorem selectorCount_splice_lt {b : Branch Element} {branches : List (Branch Element)}
    (h : b ∈ branches) (before after : List Element) (kind : SelectorKind) (name : String)
    (location : Location) :
    selectorCount (before ++ b.value ++ after) <
      selectorCount (before ++ .selector kind name branches location :: after) := by
  have hle := selectorCount_le_of_mem h
  simp only [selectorCount_append, selectorCount, Element.selectorCount]
  omega

/-! ## Selectors with branches -/

mutual

/-- Every selector in the element has a branch. -/
def Element.Branching : Element → Prop
  | .selector _ _ branches _ => branches ≠ [] ∧ BranchesBranching branches
  | .tag _ children _ => Branching children
  | _ => True

/-- Every selector in a list of elements has a branch. -/
def Branching : List Element → Prop
  | [] => True
  | e :: es => e.Branching ∧ Branching es

/-- Every selector in the branches has a branch. -/
def BranchesBranching : List (Branch Element) → Prop
  | [] => True
  | ⟨_, value, _⟩ :: branches => Branching value ∧ BranchesBranching branches

end

theorem branching_append {first second : List Element} :
    Branching (first ++ second) ↔ Branching first ∧ Branching second := by
  induction first with
  | nil => simp [Branching]
  | cons e es ih => rw [List.cons_append, Branching, Branching, ih, and_assoc]

theorem BranchesBranching.value {b : Branch Element} {branches : List (Branch Element)}
    (h : BranchesBranching branches) (hb : b ∈ branches) : Branching b.value := by
  induction branches with
  | nil => cases hb
  | cons first branches ih =>
      obtain ⟨hfirst, hrest⟩ := h
      rcases List.mem_cons.mp hb with rfl | hb
      · exact hfirst
      · exact ih hrest hb

/-- What is spliced together for a branch has no selectors without a branch if
the list that it was taken from has none. -/
theorem Branching.splice {before after : List Element} {kind : SelectorKind} {name : String}
    {branches : List (Branch Element)} {location : Location} {b : Branch Element}
    (h : Branching (before ++ .selector kind name branches location :: after))
    (hb : b ∈ branches) : Branching (before ++ b.value ++ after) := by
  obtain ⟨hbefore, ⟨-, hbranches⟩, hafter⟩ := branching_append.mp h
  exact branching_append.mpr ⟨branching_append.mpr ⟨hbefore, hbranches.value hb⟩, hafter⟩

/-! ## Steps -/

/-- One step of hoisting: a branch, and the branch that took its place, which says
something that `P` relates to what was spliced together. -/
structure SplicedBranch (P : List Element → List Element → Prop) (before after : List Element)
    (b hoisted : Branch Element) : Prop where
  selector : hoisted.selector = b.selector
  location : hoisted.location = b.location
  value : P (before ++ b.value ++ after) hoisted.value

theorem selectors_splice {P : List Element → List Element → Prop} {before after : List Element}
    {branches hoisted : List (Branch Element)}
    (h : List.Forall₂ (SplicedBranch P before after) branches hoisted) :
    hoisted.map Branch.selector = branches.map Branch.selector := by
  induction h with
  | nil => rfl
  | cons hfirst _ ih => rw [List.map_cons, List.map_cons, hfirst.selector, ih]

/-- Every branch of the result took the place of some branch. -/
theorem exists_splicedBranch {P : List Element → List Element → Prop}
    {before after : List Element} {branches hoisted : List (Branch Element)} {b' : Branch Element}
    (h : List.Forall₂ (SplicedBranch P before after) branches hoisted) (hb : b' ∈ hoisted) :
    ∃ b ∈ branches, SplicedBranch P before after b b' := by
  induction h with
  | nil => cases hb
  | cons hfirst _ ih =>
      rcases List.mem_cons.mp hb with rfl | hb
      · exact ⟨_, List.mem_cons_self, hfirst⟩
      · obtain ⟨b, hmem, hspliced⟩ := ih hb
        exact ⟨b, List.mem_cons_of_mem _ hmem, hspliced⟩

/-- Every branch was replaced by some branch of the result. -/
theorem exists_replacement {P : List Element → List Element → Prop} {before after : List Element}
    {branches hoisted : List (Branch Element)} {b : Branch Element}
    (h : List.Forall₂ (SplicedBranch P before after) branches hoisted) (hb : b ∈ branches) :
    ∃ b' ∈ hoisted, SplicedBranch P before after b b' := by
  induction h with
  | nil => cases hb
  | cons hfirst _ ih =>
      rcases List.mem_cons.mp hb with rfl | hb
      · exact ⟨_, List.mem_cons_self, hfirst⟩
      · obtain ⟨b', hmem, hspliced⟩ := ih hb
        exact ⟨b', List.mem_cons_of_mem _ hmem, hspliced⟩

section Induction

variable {P : List Element → List Element → Prop}
  (plain : ∀ elements, containsSelector elements = false → P elements elements)
  (lift : ∀ before kind name branches location after hoisted,
    containsSelector before = false →
    List.Forall₂ (SplicedBranch P before after) branches hoisted →
    P (before ++ .selector kind name branches location :: after)
      [.selector kind name hoisted location])

include plain lift

theorem hoistWithin_induction {bound : Nat} {elements hoisted : List Element}
    (hcount : selectorCount elements ≤ bound) (h : hoistWithin bound elements = .ok hoisted) :
    P elements hoisted := by
  induction bound generalizing elements hoisted with
  | zero =>
      cases h
      exact plain elements (containsSelector_of_count (Nat.le_zero.mp hcount))
  | succ bound ih =>
      have hfound := findObstacle_describes elements
      rw [hoistWithin] at h
      split at h
      · next hnone =>
          cases h
          rw [hnone] at hfound
          exact plain elements hfound
      · cases h
      · next before kind name branches location after hselector =>
          rw [hselector] at hfound
          obtain ⟨rfl, hbefore⟩ := hfound
          obtain ⟨spliced, hspliced, hlast⟩ := bind_eq_ok h
          cases hlast
          apply lift before kind name branches location after spliced hbefore
          have hmap := mapM_eq_ok_iff.mp hspliced
          -- The bound serves every branch, since each splice has fewer selectors.
          have hsmaller : ∀ b ∈ branches, selectorCount (before ++ b.value ++ after) ≤ bound :=
            fun b hb => Nat.le_of_lt_succ (Nat.lt_of_lt_of_le
              (selectorCount_splice_lt hb before after kind name location) hcount)
          clear h hspliced hselector hcount
          induction hmap with
          | nil => exact .nil
          | cons hbranch hrest ihrest =>
              obtain ⟨value, hvalue, hmade⟩ := bind_eq_ok hbranch
              cases hmade
              exact .cons ⟨rfl, rfl, ih (hsmaller _ List.mem_cons_self) hvalue⟩
                (ihrest fun b hb => hsmaller b (List.mem_cons_of_mem _ hb))

/-- What holds of messages without selectors, and of a hoisted message as soon as
it holds of the branches, holds of every message that can be hoisted. -/
theorem hoistSelectors_induction {elements hoisted : List Element}
    (h : hoistSelectors elements = .ok hoisted) : P elements hoisted :=
  hoistWithin_induction plain lift (Nat.le_refl _) h

end Induction

/-! ## Failing steps -/

/-- If the search stops at a tag, then at one with a selector in it. -/
theorem exists_of_findObstacle_tag {elements : List Element} {name : String}
    (h : findObstacle elements = .tag name) :
    ∃ children location, .tag name children location ∈ elements ∧
      containsSelector children = true := by
  have hbehind {e : Element} {obstacle : Obstacle} (h : obstacle.behind e = .tag name) :
      obstacle = .tag name := by
    cases obstacle with
    | none => cases h
    | tag other => exact h
    | selector before kind name branches location after => cases h
  fun_induction findObstacle elements with
  | case1 | case2 => cases h
  | case3 name' children location es hcontains =>
      cases h
      exact ⟨children, location, List.mem_cons_self, hcontains⟩
  | case4 _ _ _ es _ ih | case5 _ es _ _ ih =>
      obtain ⟨children, location, hmem, hcontains⟩ := ih (hbehind h)
      exact ⟨children, location, List.mem_cons_of_mem _ hmem, hcontains⟩

/-- What holds of messages with a selector in one of their tags, and of a message
as soon as it holds of what was spliced together for a branch, holds of every
message that cannot be hoisted and of the tag that is reported. -/
theorem hoistSelectors_error_induction {P : List Element → String → Prop}
    (tag : ∀ elements name children location, .tag name children location ∈ elements →
      containsSelector children = true → P elements name)
    (lift : ∀ before kind name branches location after, ∀ b ∈ branches, ∀ culprit,
      P (before ++ b.value ++ after) culprit →
      P (before ++ .selector kind name branches location :: after) culprit)
    {elements : List Element} {culprit : String}
    (h : hoistSelectors elements = .error (.selectorInsideTag culprit)) : P elements culprit := by
  rw [hoistSelectors] at h
  generalize selectorCount elements = bound at h
  induction bound generalizing elements with
  | zero => cases h
  | succ bound ih =>
      have hfound := findObstacle_describes elements
      rw [hoistWithin] at h
      split at h
      · cases h
      · next hname =>
          cases h
          obtain ⟨children, location, hmem, hcontains⟩ := exists_of_findObstacle_tag hname
          exact tag elements culprit children location hmem hcontains
      · next before kind name branches location after hselector =>
          rw [hselector] at hfound
          obtain ⟨rfl, -⟩ := hfound
          have hbranch : ∃ b ∈ branches, hoistWithin bound (before ++ b.value ++ after) =
              .error (.selectorInsideTag culprit) := by
            have hspliced : ∀ b ∈ branches, FaultsObey (fun error => ∃ b ∈ branches,
                hoistWithin bound (before ++ b.value ++ after) = .error error)
                (do
                  let value ← hoistWithin bound (before ++ b.value ++ after)
                  return { b with value := value }) :=
              fun b hb => .bind (fun _ herror => ⟨b, hb, herror⟩) fun _ _ => .ok _
            exact (FaultsObey.mapM hspliced).bind (fun _ _ => .ok _) _ h
          obtain ⟨b, hb, herror⟩ := hbranch
          exact lift before kind name branches location after b hb culprit (ih herror)

end MessagePattern
