/-
# Hoisting comes to an end

Hoisting goes on with lists that it splices together from what surrounds a selector and
one of its branches.  Such a list may have more members than the one it was made from, but at
least the selector that was lifted is missing from it.  So the bound by which hoisting is defined
is never met: hoisting is the only solution of an equation without it.

Every step puts one selector on top of what it goes on with, so selectors are nested no
deeper in a hoisted message than there were selectors before.
-/

import MessagePattern.Proofs.HoistedForm

namespace MessagePattern

/-! ## Steps -/

/-- One step of hoisting, which leaves what is spliced together to `rest`. -/
def hoistStep (rest : List Element → Except HoistError (List Element))
    (elements : List Element) : Except HoistError (List Element) :=
  match findObstacle elements with
  | .none => .ok elements
  | .tag name => .error (.selectorInsideTag name)
  | .selector before kind name branches location after => do
    let branches ← branches.mapM fun b => do
      let value ← rest (before ++ b.value ++ after)
      return { b with value := value }
    return [.selector kind name branches location]

/-- A list that hoisting goes on with: a branch of the first selector, between what
surrounded the selector. -/
inductive Splices (elements : List Element) : List Element → Prop
  | branch {before after : List Element} {kind : SelectorKind} {name : String}
      {branches : List (Branch Element)} {location : Location} {b : Branch Element}
      (found : findObstacle elements = .selector before kind name branches location after)
      (mem : b ∈ branches) : Splices elements (before ++ b.value ++ after)

/-- A step depends on nothing but what it goes on with. -/
theorem hoistStep_congr {rest rest' : List Element → Except HoistError (List Element)}
    {elements : List Element}
    (h : ∀ spliced, Splices elements spliced → rest spliced = rest' spliced) :
    hoistStep rest elements = hoistStep rest' elements := by
  unfold hoistStep
  cases hfound : findObstacle elements with
  | none => rfl
  | tag name => rfl
  | selector before kind name branches location after =>
      have hbranches : (branches.mapM fun b => do
            let value ← rest (before ++ b.value ++ after)
            return { b with value := value }) =
          branches.mapM fun b => do
            let value ← rest' (before ++ b.value ++ after)
            return { b with value := value } :=
        mapM_congr fun b hb => by rw [h _ (.branch hfound hb)]
      simp only [hbranches]

/-- What hoisting goes on with has fewer selectors. -/
theorem Splices.selectorCount_lt {elements spliced : List Element}
    (h : Splices elements spliced) : selectorCount spliced < selectorCount elements := by
  obtain ⟨hfound, hmem⟩ := h
  have hdescribes := findObstacle_describes elements
  rw [hfound] at hdescribes
  obtain ⟨rfl, -⟩ := hdescribes
  exact selectorCount_splice_lt hmem _ _ _ _ _

theorem wellFounded_splices : WellFounded fun spliced elements => Splices elements spliced :=
  Subrelation.wf Splices.selectorCount_lt (measure selectorCount).wf

/-! ## Steps without a bound -/

theorem hoistWithin_succ (bound : Nat) (elements : List Element) :
    hoistWithin (bound + 1) elements = hoistStep (hoistWithin bound) elements := rfl

/-- Without a selector there is nothing to hoist. -/
theorem hoistWithin_of_count {elements : List Element} (h : selectorCount elements = 0)
    (bound : Nat) : hoistWithin bound elements = .ok elements := by
  have hplain := containsSelector_eq_false_iff.mp (containsSelector_of_count h)
  exact (Hoisted.plain hplain).hoistWithin bound

/-- A bound that allows as many steps as there are selectors is never met. -/
theorem hoistWithin_eq {m n : Nat} {elements : List Element} (hm : selectorCount elements ≤ m)
    (hn : selectorCount elements ≤ n) : hoistWithin m elements = hoistWithin n elements := by
  induction m generalizing n elements with
  | zero =>
      have hcount := Nat.le_zero.mp hm
      rw [hoistWithin_of_count hcount, hoistWithin_of_count hcount]
  | succ m ih =>
      cases n with
      | zero =>
          have hcount := Nat.le_zero.mp hn
          rw [hoistWithin_of_count hcount, hoistWithin_of_count hcount]
      | succ n =>
          rw [hoistWithin_succ, hoistWithin_succ]
          apply hoistStep_congr
          intro spliced hspliced
          have hlt := hspliced.selectorCount_lt
          exact ih (by omega) (by omega)

theorem hoistSelectors_eq (elements : List Element) :
    hoistSelectors elements = hoistStep hoistSelectors elements := by
  rw [hoistSelectors, hoistWithin_eq (Nat.le_refl _) (Nat.le_succ _), hoistWithin_succ]
  apply hoistStep_congr
  intro spliced hspliced
  exact hoistWithin_eq (Nat.le_of_lt hspliced.selectorCount_lt) (Nat.le_refl _)

/-- Steps without any bound determine what becomes of every message. -/
theorem eq_hoistSelectors_iff {hoist : List Element → Except HoistError (List Element)} :
    (∀ elements, hoist elements = hoistStep hoist elements) ↔ hoist = hoistSelectors := by
  constructor
  · intro hstep
    funext elements
    induction elements using wellFounded_splices.induction with
    | _ elements ih =>
        rw [hstep, hoistSelectors_eq]
        exact hoistStep_congr ih
  · rintro rfl
    exact hoistSelectors_eq

/-! ## Nesting -/

mutual

/-- How deep selectors are nested in an element. -/
def Element.selectorDepth : Element → Nat
  | .selector _ _ branches _ => branchesSelectorDepth branches + 1
  | .tag _ children _ => selectorDepth children
  | _ => 0

/-- How deep selectors are nested in a list of elements. -/
def selectorDepth : List Element → Nat
  | [] => 0
  | e :: es => max e.selectorDepth (selectorDepth es)

/-- How deep selectors are nested in the branches of a selector. -/
def branchesSelectorDepth : List (Branch Element) → Nat
  | [] => 0
  | ⟨_, value, _⟩ :: branches => max (selectorDepth value) (branchesSelectorDepth branches)

end

mutual

theorem Element.selectorDepth_le_count : ∀ e : Element, e.selectorDepth ≤ e.selectorCount
  | .selector _ _ branches _ => Nat.succ_le_succ (branchesSelectorDepth_le_count branches)
  | .tag _ children _ => selectorDepth_le_count children
  | .literal _ _ => Nat.le_refl _
  | .argument _ _ => Nat.le_refl _
  | .number _ _ _ => Nat.le_refl _
  | .dateTime _ _ _ _ => Nat.le_refl _
  | .pound _ => Nat.le_refl _

/-- Selectors inside each other are counted one by one. -/
theorem selectorDepth_le_count : ∀ es : List Element, selectorDepth es ≤ selectorCount es
  | [] => Nat.le_refl _
  | e :: es => by
      have hfirst := e.selectorDepth_le_count
      have hrest := selectorDepth_le_count es
      rw [selectorDepth, selectorCount]
      omega

theorem branchesSelectorDepth_le_count :
    ∀ branches : List (Branch Element),
      branchesSelectorDepth branches ≤ selectorCountBranches branches
  | [] => Nat.le_refl _
  | ⟨_, value, _⟩ :: branches => by
      have hfirst := selectorDepth_le_count value
      have hrest := branchesSelectorDepth_le_count branches
      rw [branchesSelectorDepth, selectorCountBranches]
      omega

end

theorem branchesSelectorDepth_le_iff {n : Nat} {branches : List (Branch Element)} :
    branchesSelectorDepth branches ≤ n ↔ ∀ b ∈ branches, selectorDepth b.value ≤ n := by
  induction branches with
  | nil => simp [branchesSelectorDepth]
  | cons b branches ih =>
      rw [branchesSelectorDepth, Nat.max_le, ih, List.forall_mem_cons]

/-- Hoisting nests selectors no deeper than there are selectors. -/
theorem selectorDepth_hoistSelectors {elements hoisted : List Element}
    (h : hoistSelectors elements = .ok hoisted) :
    selectorDepth hoisted ≤ selectorCount elements := by
  refine hoistSelectors_induction (P := fun elements hoisted =>
    selectorDepth hoisted ≤ selectorCount elements) ?_ ?_ h
  · exact fun elements _ => selectorDepth_le_count elements
  · intro before kind name branches location after hoisted _ hspliced
    have hpos : 0 < selectorCount (before ++ .selector kind name branches location :: after) := by
      simp only [selectorCount_append, selectorCount, Element.selectorCount]
      omega
    have hbranches : branchesSelectorDepth hoisted ≤
        selectorCount (before ++ .selector kind name branches location :: after) - 1 := by
      apply branchesSelectorDepth_le_iff.mpr
      intro b' hb'
      obtain ⟨b, hb, replaced⟩ := exists_splicedBranch hspliced hb'
      have hlt := selectorCount_splice_lt hb before after kind name location
      have hdepth := replaced.value
      omega
    rw [selectorDepth, selectorDepth, Element.selectorDepth]
    omega

/-- Every step of hoisting goes on with fewer selectors, and this is what makes an end of
it. -/
structure HoistingEnds : Prop where
  /-- What a step gives depends only on the lists that it goes on with. -/
  asks : ∀ rest rest' elements,
    (∀ spliced, Splices elements spliced → rest spliced = rest' spliced) →
      hoistStep rest elements = hoistStep rest' elements
  /-- Each of them has fewer selectors than the list that it was made from. -/
  fewer : ∀ elements spliced, Splices elements spliced →
    selectorCount spliced < selectorCount elements
  /-- What may grow is the length of the list itself.  The elements at all depths taken together
  get fewer with every step, since the selector and its other branches are left out. -/
  longer : ∃ elements spliced, Splices elements spliced ∧ elements.length < spliced.length
  /-- So hoisting cannot go on for ever. -/
  ends : WellFounded fun spliced elements => Splices elements spliced
  /-- Taking steps as long as there are any gives an outcome for every message, and no
  other than hoisting does. -/
  defined : ∀ hoist, (∀ elements, hoist elements = hoistStep hoist elements) ↔
    hoist = hoistSelectors
  /-- The selectors of the outcome are nested no deeper than there were selectors. -/
  depth : ∀ elements hoisted, hoistSelectors elements = .ok hoisted →
    selectorDepth hoisted ≤ selectorCount elements

/-- Hoisting ends for every message, although it goes on with lists that may be longer. -/
theorem hoisting_ends : HoistingEnds where
  asks _ _ _ := hoistStep_congr
  fewer _ _ := Splices.selectorCount_lt
  longer := by
    refine ⟨[.selector .select "g" [⟨"f", [.argument "x" .blank, .argument "y" .blank], .blank⟩]
      .blank], _, .branch rfl List.mem_cons_self, ?_⟩
    decide
  ends := wellFounded_splices
  defined _ := eq_hoistSelectors_iff
  depth _ _ := selectorDepth_hoistSelectors

/-- Of three selectors next to each other the second and the third come into the branch of
the first one, and all three are nested in the outcome. -/
theorem hoisting_ends_siblings :
    ∃ elements spliced hoisted, Splices elements spliced ∧ selectorCount spliced = 2 ∧
      selectorCount spliced < selectorCount elements ∧ hoistSelectors elements = .ok hoisted ∧
      selectorDepth hoisted = 3 ∧ selectorDepth hoisted ≤ selectorCount elements := by
  have hsplices : Splices
      [.selector .select "g" [⟨"f", [.literal "x" .blank], .blank⟩] .blank,
        .selector (.plural .cardinal 0) "n" [⟨"one", [], .blank⟩] .blank,
        .selector .select "h" [⟨"m", [], .blank⟩] .blank] _ :=
    .branch rfl List.mem_cons_self
  exact ⟨_, _, _, hsplices, rfl, hoisting_ends.fewer _ _ hsplices, rfl, rfl,
    hoisting_ends.depth _ _ rfl⟩

end MessagePattern
