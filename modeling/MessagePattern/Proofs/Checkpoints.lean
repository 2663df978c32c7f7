/-
# What options ask of a message

Three of the options ask something of a message that can be read without them:
that it is not nested too deep, that every selector has a branch for `other`, and
that its skeletons can be interpreted.  Each of them asks at certain points only,
where a nested text begins, behind the branches of a selector, and at a skeleton.
These are the checkpoints of a tree, listed here in the order in which reading
comes to them.

What options change in the tree apart from that is the meaning of its skeletons,
which `withMeanings` puts in.
-/

import MessagePattern.Proofs.HoistedText
import MessagePattern.Proofs.Texts

namespace MessagePattern

/-! ## Skeletons -/

/-- A skeleton of a number, or of a date or time. -/
inductive Skeleton
  | number (skeleton : NumberSkeleton)
  | dateTime (skeleton : DateTimeSkeleton)
  deriving DecidableEq

/-- Why something is refused, if it is. -/
def refusal? {α : Type} : Except SkeletonError α → Option SkeletonError
  | .error e => some e
  | .ok _ => none

namespace Skeleton

/-- The part of the message that the skeleton was read from. -/
def location : Skeleton → Location
  | .number k => k.location
  | .dateTime k => k.location

/-- Why the skeleton cannot be interpreted, if it cannot. -/
def fault? : Skeleton → Option SkeletonError
  | .number k => refusal? (NumberSkeleton.interpret k.tokens)
  | .dateTime k => refusal? (DateTimeSkeleton.interpret k.pattern.toList)

end Skeleton

/-- A style with its skeleton changed. -/
def Style.map {σ τ : Type} (f : σ → τ) : Style σ → Style τ
  | .text name => .text name
  | .skeleton k => .skeleton (f k)

/-- A number skeleton with its meaning, if that is asked for. -/
def NumberSkeleton.withMeaning (asked : Bool) (k : NumberSkeleton) : NumberSkeleton :=
  { k with
    parsedOptions := if asked then (interpret k.tokens).toOption else none }

/-- A date-time skeleton with its meaning, if that is asked for. -/
def DateTimeSkeleton.withMeaning (asked : Bool) (k : DateTimeSkeleton) : DateTimeSkeleton :=
  { k with
    parsedOptions := if asked then (interpret k.pattern.toList).toOption else none }

mutual

/-- An element with the meaning of its skeletons, if that is asked for. -/
def Element.withMeanings (asked : Bool) : Element → Element
  | .literal text l => .literal text l
  | .argument name l => .argument name l
  | .number name style l =>
    .number name (style.map (Style.map (NumberSkeleton.withMeaning asked))) l
  | .dateTime kind name style l =>
    .dateTime kind name (style.map (Style.map (DateTimeSkeleton.withMeaning asked))) l
  | .selector kind name branches l => .selector kind name (branchesWithMeanings asked branches) l
  | .pound l => .pound l
  | .tag name children l => .tag name (withMeanings asked children) l

/-- Elements with the meaning of their skeletons. -/
def withMeanings (asked : Bool) : List Element → List Element
  | [] => []
  | e :: es => e.withMeanings asked :: withMeanings asked es

/-- Branches with the meaning of the skeletons in them. -/
def branchesWithMeanings (asked : Bool) : List (Branch Element) → List (Branch Element)
  | [] => []
  | ⟨selector, value, l⟩ :: branches =>
    ⟨selector, withMeanings asked value, l⟩ :: branchesWithMeanings asked branches

end

theorem map_selector_branchesWithMeanings (asked : Bool) (branches : List (Branch Element)) :
    (branchesWithMeanings asked branches).map Branch.selector = branches.map Branch.selector := by
  induction branches with
  | nil => rfl
  | cons b branches ih => simp [branchesWithMeanings, ih]

theorem isEmpty_branchesWithMeanings (asked : Bool) (branches : List (Branch Element)) :
    (branchesWithMeanings asked branches).isEmpty = branches.isEmpty := by
  cases branches <;> rfl

/-! ## Checkpoints -/

/-- A point of a message at which options ask something of it. -/
inductive Checkpoint
  /-- A text begins, with so many tags and branches around it. -/
  | text (level : Nat)
  /-- A skeleton was read. -/
  | skeleton (skeleton : Skeleton)
  /-- The branches of a selector were read. -/
  | branches (selectors : List String)

namespace Checkpoint

/-- Whether the options have what they ask for. -/
def passes (o : ParseOptions) : Checkpoint → Bool
  | .text level => decide (level ≤ o.maxNestingDepth)
  | .skeleton k => !o.shouldParseSkeletons || k.fault?.isNone
  | .branches selectors => !o.requiresOtherClause || decide ("other" ∈ selectors)

/-- The skeleton at the checkpoint, if there is one. -/
def skeleton? : Checkpoint → Option Skeleton
  | .skeleton k => some k
  | _ => none

end Checkpoint

/-- The checkpoint at a style, which is one if the style is a skeleton. -/
def styleCheckpoints {σ : Type} (wrap : σ → Skeleton) : Style σ → List Checkpoint
  | .text _ => []
  | .skeleton k => [.skeleton (wrap k)]

mutual

/-- The checkpoints of an element in a text at the given level. -/
def Element.checkpoints (level : Nat) : Element → List Checkpoint
  | .number _ style _ => style.toList.flatMap (styleCheckpoints .number)
  | .dateTime _ _ style _ => style.toList.flatMap (styleCheckpoints .dateTime)
  | .selector _ _ branches _ =>
    branchCheckpoints (level + 1) branches ++ [.branches (branches.map Branch.selector)]
  | .tag _ children _ => .text (level + 1) :: checkpoints (level + 1) children
  | _ => []

/-- The checkpoints of the elements of a text at the given level. -/
def checkpoints (level : Nat) : List Element → List Checkpoint
  | [] => []
  | e :: es => e.checkpoints level ++ checkpoints level es

/-- The checkpoints of branches whose texts are at the given level. -/
def branchCheckpoints (level : Nat) : List (Branch Element) → List Checkpoint
  | [] => []
  | ⟨_, value, _⟩ :: branches =>
    .text level :: checkpoints level value ++ branchCheckpoints level branches

end

/-- The skeletons of a message, in the order of its text. -/
def skeletons (elements : List Element) : List Skeleton :=
  (checkpoints 0 elements).filterMap Checkpoint.skeleton?

/-! ## The texts of a tree, seen from its checkpoints -/

theorem mem_checkpoints_of_mem {level : Nat} {e : Element} {es : List Element} (h : e ∈ es)
    {p : Checkpoint} (hp : p ∈ e.checkpoints level) : p ∈ checkpoints level es := by
  induction es with
  | nil => cases h
  | cons first es ih =>
      rw [checkpoints, List.mem_append]
      rcases List.mem_cons.mp h with rfl | h
      · exact .inl hp
      · exact .inr (ih h)

theorem mem_branchCheckpoints_of_mem {level : Nat} {b : Branch Element}
    {branches : List (Branch Element)} (h : b ∈ branches) {p : Checkpoint}
    (hp : p ∈ checkpoints level b.value) : p ∈ branchCheckpoints level branches := by
  induction branches with
  | nil => cases h
  | cons first branches ih =>
      rw [branchCheckpoints, List.mem_append]
      rcases List.mem_cons.mp h with rfl | h
      · exact .inl (List.mem_cons_of_mem _ hp)
      · exact .inr (ih h)

/-- The checkpoints of a text are checkpoints of the whole. -/
theorem TextAt.checkpoints_subset {elements text : List Element} {level : Nat} {inPlural : Bool}
    (h : TextAt elements level inPlural text) :
    checkpoints level text ⊆ checkpoints 0 elements := by
  induction h with
  | whole => exact List.Subset.refl _
  | tag _ mem ih =>
      intro p hp
      exact ih (mem_checkpoints_of_mem mem (List.mem_cons_of_mem _ hp))
  | branch _ mem chosen ih =>
      intro p hp
      apply ih
      apply mem_checkpoints_of_mem mem
      exact List.mem_append_left _ (mem_branchCheckpoints_of_mem chosen hp)

section Selectors

variable {elements : List Element}

/-- A selector somewhere in a tree, by the selectors of its branches. -/
def SelectorIn (elements : List Element) (selectors : List String) : Prop :=
  ∃ level inPlural text kind name branches location,
    TextAt elements level inPlural text ∧ .selector kind name branches location ∈ text ∧
      selectors = branches.map Branch.selector

mutual

theorem selectorIn_of_mem_element {selectors : List String} {level : Nat} {inPlural : Bool}
    {text : List Element} (around : TextAt elements level inPlural text) :
    ∀ e ∈ text, .branches selectors ∈ e.checkpoints level → SelectorIn elements selectors
  | .literal _ _, _, h => by cases h
  | .argument _ _, _, h => by cases h
  | .number _ style _, _, h => by
      rcases style with _ | ⟨_ | _⟩ <;> simp [Element.checkpoints, styleCheckpoints] at h
  | .dateTime _ _ style _, _, h => by
      rcases style with _ | ⟨_ | _⟩ <;> simp [Element.checkpoints, styleCheckpoints] at h
  | .selector kind name branches location, hmem, h => by
      rcases List.mem_append.mp h with h | h
      · exact selectorIn_of_mem_branches branches
          (fun b hb => ⟨_, .branch around hmem hb⟩) h
      · have hselectors : selectors = branches.map Branch.selector := by simpa using h
        exact ⟨_, _, _, _, _, _, _, around, hmem, hselectors⟩
  | .pound _, _, h => by cases h
  | .tag _ children _, hmem, h => by
      have hchildren : .branches selectors ∈ checkpoints (level + 1) children := by
        simpa [Element.checkpoints] using h
      exact selectorIn_of_mem children (.tag around hmem) (fun _ => id) hchildren

theorem selectorIn_of_mem {selectors : List String} {level : Nat} {inPlural : Bool}
    {text : List Element} :
    ∀ es : List Element, TextAt elements level inPlural text → (∀ e ∈ es, e ∈ text) →
      .branches selectors ∈ checkpoints level es → SelectorIn elements selectors
  | [], _, _, h => by cases h
  | e :: es, around, hmem, h => by
      rcases List.mem_append.mp h with h | h
      · exact selectorIn_of_mem_element around e (hmem e List.mem_cons_self) h
      · exact selectorIn_of_mem es around (fun e he => hmem e (List.mem_cons_of_mem _ he)) h

theorem selectorIn_of_mem_branches {selectors : List String} {level : Nat} :
    ∀ branches : List (Branch Element),
      (∀ b ∈ branches, ∃ inPlural, TextAt elements level inPlural b.value) →
      .branches selectors ∈ branchCheckpoints level branches → SelectorIn elements selectors
  | [], _, h => by cases h
  | ⟨_, value, _⟩ :: branches, around, h => by
      obtain ⟨_, hvalue⟩ := around _ List.mem_cons_self
      rw [branchCheckpoints, List.cons_append, List.mem_cons, List.mem_append] at h
      rcases h with h | h | h
      · cases h
      · exact selectorIn_of_mem value hvalue (fun _ => id) h
      · exact selectorIn_of_mem_branches branches
          (fun b hb => around b (List.mem_cons_of_mem _ hb)) h

end

/-- Behind the branches of each selector there is a checkpoint, and nowhere else. -/
theorem branches_mem_checkpoints_iff {selectors : List String} :
    .branches selectors ∈ checkpoints 0 elements ↔ SelectorIn elements selectors := by
  constructor
  · exact selectorIn_of_mem elements .whole fun _ => id
  · rintro ⟨level, inPlural, text, kind, name, branches, location, around, hmem, rfl⟩
    apply around.checkpoints_subset
    apply mem_checkpoints_of_mem hmem
    exact List.mem_append_right _ List.mem_cons_self

end Selectors

/-! ## Depth, seen from the checkpoints -/

/-- No nested text is deeper than the limit. -/
def WithinDepth (limit : Nat) (points : List Checkpoint) : Prop :=
  ∀ level, .text level ∈ points → level ≤ limit

theorem withinDepth_append {limit : Nat} {first second : List Checkpoint} :
    WithinDepth limit (first ++ second) ↔ WithinDepth limit first ∧ WithinDepth limit second := by
  simp only [WithinDepth, List.mem_append]
  exact ⟨fun h => ⟨fun n hn => h n (.inl hn), fun n hn => h n (.inr hn)⟩,
    fun h n hn => hn.elim (h.1 n) (h.2 n)⟩

theorem withinDepth_text {limit level : Nat} {points : List Checkpoint} :
    WithinDepth limit (.text level :: points) ↔ level ≤ limit ∧ WithinDepth limit points := by
  simp [WithinDepth]

mutual

theorem Element.withinDepth_iff {limit level : Nat} (hlevel : level ≤ limit) :
    ∀ e : Element, WithinDepth limit (e.checkpoints level) ↔ level + e.nestingDepth ≤ limit
  | .literal _ _ => by simpa [WithinDepth, Element.checkpoints, Element.nestingDepth] using hlevel
  | .argument _ _ => by simpa [WithinDepth, Element.checkpoints, Element.nestingDepth] using hlevel
  | .number _ style _ => by
      rcases style with _ | ⟨_ | _⟩ <;>
        simpa [WithinDepth, Element.checkpoints, styleCheckpoints, Element.nestingDepth]
          using hlevel
  | .dateTime _ _ style _ => by
      rcases style with _ | ⟨_ | _⟩ <;>
        simpa [WithinDepth, Element.checkpoints, styleCheckpoints, Element.nestingDepth]
          using hlevel
  | .selector _ _ branches _ => by
      rw [Element.checkpoints, withinDepth_append, branchesWithinDepth_iff hlevel branches,
        Element.nestingDepth]
      simp [WithinDepth]
  | .pound _ => by simpa [WithinDepth, Element.checkpoints, Element.nestingDepth] using hlevel
  | .tag _ children _ => by
      rw [Element.checkpoints, withinDepth_text, Element.nestingDepth]
      constructor
      · rintro ⟨hbody, hchildren⟩
        have hdepth := (withinDepth_iff hbody children).mp hchildren
        omega
      · intro hdepth
        have hbody : level + 1 ≤ limit := by omega
        exact ⟨hbody, (withinDepth_iff hbody children).mpr (by omega)⟩

/-- The deepest checkpoint of a text is as deep as the text is nested. -/
theorem withinDepth_iff {limit level : Nat} (hlevel : level ≤ limit) :
    ∀ es : List Element, WithinDepth limit (checkpoints level es) ↔
      level + nestingDepth es ≤ limit
  | [] => by simpa [WithinDepth, checkpoints, nestingDepth] using hlevel
  | e :: es => by
      rw [checkpoints, withinDepth_append, e.withinDepth_iff hlevel, withinDepth_iff hlevel es,
        nestingDepth]
      omega

theorem branchesWithinDepth_iff {limit level : Nat} (hlevel : level ≤ limit) :
    ∀ branches : List (Branch Element),
      WithinDepth limit (branchCheckpoints (level + 1) branches) ↔
        level + branchesDepth branches ≤ limit
  | [] => by simpa [WithinDepth, branchCheckpoints, branchesDepth] using hlevel
  | ⟨_, value, _⟩ :: branches => by
      rw [branchCheckpoints, withinDepth_append, withinDepth_text,
        branchesWithinDepth_iff hlevel branches, branchesDepth]
      constructor
      · rintro ⟨⟨hbody, hvalue⟩, hbranches⟩
        have hdepth := (withinDepth_iff hbody value).mp hvalue
        omega
      · intro hdepth
        have hbody : level + 1 ≤ limit := by omega
        exact ⟨⟨hbody, (withinDepth_iff hbody value).mpr (by omega)⟩, by omega⟩

end

end MessagePattern
