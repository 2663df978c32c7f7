/-
# Hoisting and number signs

A hoisted message has all its plurals around each of its texts, in the order in
which the message has them, so every number sign now belongs to the last plural
of its wording.  Hence hoisting keeps the meaning of the number signs of a message
exactly if they belonged to the last plural in every wording before.

To speak of the same number sign before and after, it has to be known by its
place.  In a message that was read, plurals and number signs all stand in
different places, since each begins later than the one before it.
-/

import MessagePattern.Proofs.Erasure
import MessagePattern.Proofs.NumberSigns
import MessagePattern.Proofs.Progress
import MessagePattern.Proofs.WellFormed

namespace MessagePattern

/-! ## Places in a message that was read -/

/-- The offset at which a mark begins. -/
def Mark.offset (m : Mark) : Nat := m.location.start.offset

/-- Marks that begin one after the other, between two offsets. -/
structure Ordered (low high : Nat) (ms : List Mark) : Prop where
  increasing : ms.Pairwise fun first second => first.offset < second.offset
  low_le : ∀ m ∈ ms, low ≤ m.offset
  lt_high : ∀ m ∈ ms, m.offset < high

theorem Ordered.nil (low high : Nat) : Ordered low high [] := ⟨.nil, by simp, by simp⟩

theorem Ordered.widen {low high low' high' : Nat} {ms : List Mark} (h : Ordered low high ms)
    (hlow : low' ≤ low) (hhigh : high ≤ high') : Ordered low' high' ms where
  increasing := h.increasing
  low_le m hm := Nat.le_trans hlow (h.low_le m hm)
  lt_high m hm := Nat.lt_of_lt_of_le (h.lt_high m hm) hhigh

theorem Ordered.append {low mid high : Nat} {first second : List Mark}
    (hfirst : Ordered low mid first) (hsecond : Ordered mid high second) (hlow : low ≤ mid)
    (hhigh : mid ≤ high) : Ordered low high (first ++ second) where
  increasing := List.pairwise_append.mpr ⟨hfirst.increasing, hsecond.increasing,
    fun m hm m' hm' => Nat.lt_of_lt_of_le (hfirst.lt_high m hm) (hsecond.low_le m' hm')⟩
  low_le m hm := by
    rcases List.mem_append.mp hm with hm | hm
    · exact hfirst.low_le m hm
    · exact Nat.le_trans hlow (hsecond.low_le m hm)
  lt_high m hm := by
    rcases List.mem_append.mp hm with hm | hm
    · exact Nat.lt_of_lt_of_le (hfirst.lt_high m hm) hhigh
    · exact hsecond.lt_high m hm

theorem Ordered.singleton {m : Mark} {high : Nat} (h : m.offset < high) :
    Ordered m.offset high [m] :=
  ⟨List.pairwise_singleton _ _, by simp, by simpa using h⟩

theorem Ordered.map_bindTo {low high : Nat} {ms : List Mark} (h : Ordered low high ms)
    (header : PluralHeader) : Ordered low high (ms.map (Mark.bindTo header)) := by
  have hoffset (m : Mark) : (m.bindTo header).offset = m.offset := by
    cases m <;> rfl
  refine ⟨?_, ?_, ?_⟩
  · rw [List.pairwise_map]
    simpa only [hoffset] using h.increasing
  · intro m hm
    obtain ⟨inner, hinner, rfl⟩ := List.mem_map.mp hm
    rw [hoffset]
    exact h.low_le inner hinner
  · intro m hm
    obtain ⟨inner, hinner, rfl⟩ := List.mem_map.mp hm
    rw [hoffset]
    exact h.lt_high inner hinner

/-- A plural begins before everything in it. -/
theorem Ordered.enclose {low high : Nat} {ms : List Mark} (h : Ordered (low + 1) high ms)
    (hhigh : low < high) (kind : SelectorKind) (name : String) {location : Location}
    (hlocation : location.start.offset = low) :
    Ordered low high (enclose (kind.header? name location) ms) := by
  cases kind with
  | select => exact h.widen (Nat.le_succ low) (Nat.le_refl high)
  | plural type offset =>
      have hself : Ordered low (low + 1) [.plural ⟨name, type, offset, location⟩] :=
        hlocation ▸ Ordered.singleton (m := .plural ⟨name, type, offset, location⟩)
          (Nat.lt_succ_self _)
      exact hself.append (h.map_bindTo _) (Nat.le_succ low) hhigh

theorem Ordered.distinct {low high : Nat} {ms : List Mark} (h : Ordered low high ms) :
    Distinct ms := by
  rw [Distinct, List.Nodup, List.pairwise_map]
  refine h.increasing.imp fun hlt heq => ?_
  rw [Mark.offset, Mark.offset, heq] at hlt
  exact Nat.lt_irrefl _ hlt

/-- What is shown of nested text: reading went forward, and the marks are in
order. -/
def MarksOrdered : NestedRelation := fun _ c es d =>
  c.Reaches d ∧ Ordered c.position.offset d.position.offset (marks es)

theorem BranchesRead.ordered {s : Scope} {plural : Bool} {seen : List String} {c d : Cursor}
    {branches : List (Branch Element)} (h : BranchesRead MarksOrdered s plural seen c branches d) :
    Ordered c.position.offset d.position.offset (branchMarks branches) := by
  induction h with
  | nil seen c => exact .nil _ _
  | @cons seen c opening body stop after d selector value branches selected fresh opened inner
      closed rest ih =>
      have hbody : c.Reaches body := (reaches_of_readSelector selected).trans
        ((Cursor.reaches_skipSpace _).trans (.of_expect opened))
      have hafter : stop.Reaches after.skipSpace :=
        (Cursor.Reaches.of_closeBrace closed).trans (Cursor.reaches_skipSpace _)
      have hrest : after.skipSpace.Reaches d := rest.reaches fun hnested => hnested.1
      exact (inner.2.widen hbody.offset_le hafter.offset_le).append ih
        (hbody.trans (inner.1.trans hafter)).offset_le hrest.offset_le

theorem ElementRead.ordered {o : ParseOptions} {s : Scope} {c d : Cursor} {e : Element}
    (h : ElementRead MarksOrdered o s c e d) :
    Ordered c.position.offset d.position.offset e.marks := by
  cases h with
  | selector head separated counted read nonempty other closed =>
      obtain ⟨named, ⟨⟨text, hbrace⟩, -, -, -⟩, -⟩ := id head
      have hbump : c.position.offset < c.bump.position.offset :=
        Cursor.offset_lt_bump (by simp [hbrace])
      have hfirst := head.reaches.trans (reaches_of_separated separated counted)
      have hlast := Cursor.Reaches.of_closeBrace closed
      have hbranches := read.reaches fun hnested => hnested.1
      have hlow := Nat.lt_of_lt_of_le hbump hfirst.offset_le
      have hhigh := (hbranches.trans hlast).offset_le
      have hinside := read.ordered.widen hlow hlast.offset_le
      exact hinside.enclose (Nat.lt_of_lt_of_le hlow hhigh) _ _ rfl
  | pound plural sign =>
      obtain ⟨text, hsign⟩ := sign
      exact Ordered.singleton (m := .sign (c.bump.since c.position) none)
        (Cursor.offset_lt_bump (by simp [hsign]))
  | tag tags begins opened inner closed =>
      have hbody := (Cursor.reaches_bump c).trans (reaches_of_opened opened)
      exact inner.2.widen hbody.offset_le (reaches_of_readClosingTag closed).offset_le
  | _ => exact .nil _ _

theorem ElementsRead.ordered {o : ParseOptions} {s : Scope} {c d : Cursor} {es : List Element}
    (h : ElementsRead MarksOrdered o s c es d) : MarksOrdered s c es d := by
  induction h with
  | nil c => exact ⟨.refl c, .nil _ _⟩
  | cons first rest ih =>
      have hfirst := first.reaches fun hnested => hnested.1
      exact ⟨hfirst.trans ih.1, first.ordered.append ih.2 hfirst.offset_le ih.1.offset_le⟩

/-- In a message that was read, plurals and number signs stand in different
places. -/
theorem distinct_marks_of_parse {message : String} {o : ParseOptions} {elements : List Element}
    (h : parse message o = .ok elements) : Distinct (marks elements) := by
  obtain ⟨d, hread⟩ := readAll_of_parse h
  have hordered := readMessage_induction (P := fun _ => MarksOrdered)
    (fun _ _ _ _ _ read => read.ordered) hread
  exact hordered.2.distinct

mutual

theorem Element.WellFormed.branching {o : ParseOptions} :
    ∀ {e : Element} {level : Nat} {inPlural : Bool}, e.WellFormed o level inPlural → e.Branching
  | .selector _ _ _ _, _, _, ⟨_, _, hselectors, hbranches⟩ =>
      ⟨by simpa using hselectors.nonempty, branchesBranching_of_wellFormed hbranches⟩
  | .tag _ children _, _, _, ⟨_, _, _, _, hchildren⟩ =>
      show Branching children from branching_of_wellFormed hchildren
  | .literal _ _, _, _, _ => trivial
  | .argument _ _, _, _, _ => trivial
  | .number _ _ _, _, _, _ => trivial
  | .dateTime _ _ _ _, _, _, _ => trivial
  | .pound _, _, _, _ => trivial

/-- In a well-formed tree every selector has a branch. -/
theorem branching_of_wellFormed {o : ParseOptions} :
    ∀ {es : List Element} {level : Nat} {inPlural : Bool},
      ElementsWellFormed o level inPlural es → Branching es
  | [], _, _, _ => trivial
  | _ :: _, _, _, ⟨he, hes⟩ => ⟨he.branching, branching_of_wellFormed hes⟩

theorem branchesBranching_of_wellFormed {o : ParseOptions} :
    ∀ {branches : List (Branch Element)} {level : Nat} {inPlural : Bool},
      BranchesWellFormed o level inPlural branches → BranchesBranching branches
  | [], _, _, _ => trivial
  | ⟨_, _, _⟩ :: _, _, _, ⟨⟨_, _, hvalue⟩, hbranches⟩ =>
      ⟨branching_of_wellFormed hvalue, branchesBranching_of_wellFormed hbranches⟩

end

/-! ## Number signs of a hoisted message -/

mutual

theorem Element.wordings_of_plain :
    ∀ {e : Element}, e.containsSelector = false →
      e.wordings = [e.marks] ∧ lastPlural e.marks = none
  | .tag _ children _, h =>
      MessagePattern.wordings_of_plain (show containsSelector children = false from h)
  | .selector _ _ _ _, h => by cases h
  | .pound _, _ => ⟨rfl, rfl⟩
  | .literal _ _, _ => ⟨rfl, rfl⟩
  | .argument _ _, _ => ⟨rfl, rfl⟩
  | .number _ _ _, _ => ⟨rfl, rfl⟩
  | .dateTime _ _ _ _, _ => ⟨rfl, rfl⟩

/-- Without selectors there is one wording, and no plural in it. -/
theorem wordings_of_plain :
    ∀ {es : List Element}, containsSelector es = false →
      wordings es = [marks es] ∧ lastPlural (marks es) = none
  | [], _ => ⟨rfl, rfl⟩
  | e :: es, h => by
      rw [containsSelector, Bool.or_eq_false_iff] at h
      obtain ⟨hfirst, hlast⟩ := Element.wordings_of_plain h.1
      obtain ⟨hrest, hnone⟩ := MessagePattern.wordings_of_plain h.2
      simp [wordings, marks, hfirst, hrest, lastPlural_append, hlast, hnone]

end

/-- The number signs of `hoisted` are those of the wordings of `elements`, each
bound to the last plural of its wording. -/
def SignsFromWordings (elements hoisted : List Element) : Prop :=
  ∀ l binder, .sign l binder ∈ marks hoisted ↔
    ∃ w ∈ wordings elements, (∃ own, .sign l own ∈ w) ∧ binder = lastPlural w

theorem signsFromWordings_plain {elements : List Element}
    (h : containsSelector elements = false) : SignsFromWordings elements elements := by
  obtain ⟨hone, hnone⟩ := wordings_of_plain h
  have hcomplete : Complete (marks elements) := complete_of_mem (hone ▸ List.mem_singleton_self _)
  have hfree : ∀ l own, .sign l own ∈ marks elements → own = none := by
    intro l own hsign
    cases own with
    | none => rfl
    | some header => exact absurd hnone (lastPlural_ne_none (hcomplete l header hsign))
  intro l binder
  simp only [hone, List.mem_singleton, exists_eq_left, hnone]
  constructor
  · intro hsign
    exact ⟨⟨binder, hsign⟩, hfree l binder hsign⟩
  · rintro ⟨⟨own, hsign⟩, rfl⟩
    exact hfree l own hsign ▸ hsign

theorem sign_mem_branchMarks_splice {before after : List Element}
    {branches hoisted : List (Branch Element)} {l : Location} {binder : Option PluralHeader}
    (h : List.Forall₂ (SplicedBranch SignsFromWordings before after) branches hoisted) :
    .sign l binder ∈ branchMarks hoisted ↔
      ∃ b ∈ branches, ∃ w ∈ wordings (before ++ b.value ++ after),
        (∃ own, .sign l own ∈ w) ∧ binder = lastPlural w := by
  induction h with
  | nil => simp [branchMarks]
  | @cons b b' branches hoisted hfirst hrest ih =>
      have hvalue := hfirst.value l binder
      simp only [branchMarks, List.mem_append, hvalue, ih, List.exists_mem_cons_iff]

/-- The wordings of a list with a selector in it are those of what is spliced
together for its branches, with the selector around the branch. -/
theorem mem_wordings_selector {before after : List Element} {kind : SelectorKind} {name : String}
    {branches : List (Branch Element)} {location : Location} {w : List Mark}
    (hbefore : containsSelector before = false) :
    w ∈ wordings (before ++ .selector kind name branches location :: after) ↔
      ∃ b ∈ branches, ∃ y ∈ wordings b.value, ∃ v ∈ wordings after,
        w = marks before ++ (enclose (kind.header? name location) y ++ v) := by
  obtain ⟨hone, -⟩ := wordings_of_plain hbefore
  simp only [mem_wordings_append, mem_wordings_cons, hone, List.mem_singleton, exists_eq_left,
    Element.wordings, List.mem_map, mem_branchWordings]
  constructor
  · rintro ⟨-, ⟨-, ⟨y, ⟨b, hb, hy⟩, rfl⟩, v, hv, rfl⟩, rfl⟩
    exact ⟨b, hb, y, hy, v, hv, rfl⟩
  · rintro ⟨b, hb, y, hy, v, hv, rfl⟩
    exact ⟨_, ⟨_, ⟨y, ⟨b, hb, hy⟩, rfl⟩, v, hv, rfl⟩, rfl⟩

theorem mem_wordings_splice {before value after : List Element} {w : List Mark}
    (hbefore : containsSelector before = false) :
    w ∈ wordings (before ++ value ++ after) ↔
      ∃ y ∈ wordings value, ∃ v ∈ wordings after, w = marks before ++ (y ++ v) := by
  obtain ⟨hone, -⟩ := wordings_of_plain hbefore
  simp only [List.append_assoc, mem_wordings_append, hone, List.mem_singleton, exists_eq_left]
  constructor
  · rintro ⟨-, ⟨y, hy, v, hv, rfl⟩, rfl⟩
    exact ⟨y, hy, v, hv, rfl⟩
  · rintro ⟨y, hy, v, hv, rfl⟩
    exact ⟨_, ⟨y, hy, v, hv, rfl⟩, rfl⟩

/-- A selector around part of a wording binds no sign that a plural further in, or
one behind it, has bound. -/
theorem lastPlural_enclose_between {u y v : List Mark} (hu : lastPlural u = none)
    (header? : Option PluralHeader) :
    lastPlural (u ++ (enclose header? y ++ v)) = (lastPlural (u ++ (y ++ v))).or header? := by
  simp only [lastPlural_append, lastPlural_enclose, hu, Option.or_none, Option.or_assoc]

theorem sign_mem_enclose_between {u y v : List Mark} {l : Location}
    (header? : Option PluralHeader) :
    (∃ own, .sign l own ∈ u ++ (enclose header? y ++ v)) ↔ ∃ own, .sign l own ∈ u ++ (y ++ v) := by
  simp only [List.mem_append, exists_or, sign_mem_enclose]
  constructor
  · rintro (hu | ⟨-, inner, hy, -⟩ | hv)
    · exact .inl hu
    · exact .inr (.inl ⟨inner, hy⟩)
    · exact .inr (.inr hv)
  · rintro (hu | ⟨inner, hy⟩ | hv)
    · exact .inl hu
    · exact .inr (.inl ⟨_, inner, hy, rfl⟩)
    · exact .inr (.inr hv)

theorem signsFromWordings_lift {before after : List Element} {kind : SelectorKind} {name : String}
    {branches hoisted : List (Branch Element)} {location : Location}
    (hbefore : containsSelector before = false)
    (h : List.Forall₂ (SplicedBranch SignsFromWordings before after) branches hoisted) :
    SignsFromWordings (before ++ .selector kind name branches location :: after)
      [.selector kind name hoisted location] := by
  obtain ⟨-, hnone⟩ := wordings_of_plain hbefore
  intro l binder
  simp only [marks, Element.marks, List.append_nil, sign_mem_enclose,
    sign_mem_branchMarks_splice h, mem_wordings_selector hbefore, mem_wordings_splice hbefore]
  constructor
  · rintro ⟨-, ⟨b, hb, -, ⟨y, hy, v, hv, rfl⟩, hsign, rfl⟩, rfl⟩
    exact ⟨_, ⟨b, hb, y, hy, v, hv, rfl⟩, (sign_mem_enclose_between _).mpr hsign,
      (lastPlural_enclose_between hnone _).symm⟩
  · rintro ⟨-, ⟨b, hb, y, hy, v, hv, rfl⟩, hsign, rfl⟩
    exact ⟨_, ⟨b, hb, _, ⟨y, hy, v, hv, rfl⟩, (sign_mem_enclose_between _).mp hsign, rfl⟩,
      lastPlural_enclose_between hnone _⟩

/-- The number signs of a hoisted message are those of the wordings of the message,
each of them bound to the last plural of its wording. -/
theorem signsFromWordings_hoistSelectors {elements hoisted : List Element}
    (h : hoistSelectors elements = .ok hoisted) : SignsFromWordings elements hoisted :=
  hoistSelectors_induction (P := SignsFromWordings) (fun _ => signsFromWordings_plain)
    (fun _ _ _ _ _ _ _ => signsFromWordings_lift) h

theorem Distinct.binder_eq {ms : List Mark} (h : Distinct ms) {l : Location}
    {first second : Option PluralHeader} (hfirst : .sign l first ∈ ms)
    (hsecond : .sign l second ∈ ms) : first = second := by
  have heq := List.inj_on_of_nodup_map h hfirst hsecond rfl
  exact (Mark.sign.inj heq).2

/-- Hoisting a message that was read copies number signs and adds none.  Each of
them has the nearest plural that it had in the message if and only if the rule
for number signs holds. -/
theorem hoistSelectors_keeps_signs_iff {message : String} {o : ParseOptions}
    {elements hoisted : List Element} (hparse : parse message o = .ok elements)
    (hhoist : hoistSelectors elements = .ok hoisted) :
    (∀ l binder, .sign l binder ∈ marks hoisted → ∃ own, .sign l own ∈ marks elements) ∧
      ((∀ l binder own, .sign l binder ∈ marks hoisted → .sign l own ∈ marks elements →
        binder = own) ↔ signsLast elements = true) := by
  have hsigns := signsFromWordings_hoistSelectors hhoist
  have hdistinct := distinct_marks_of_parse hparse
  have hbranching := branching_of_wellFormed (wellFormedAt_of_parse hparse).elements
  refine ⟨?_, ?_⟩
  · intro l binder hsign
    obtain ⟨w, hw, ⟨own, hown⟩, -⟩ := (hsigns l binder).mp hsign
    exact ⟨own, wordings_subset hw hown⟩
  · rw [← signsLast_iff hbranching hdistinct]
    constructor
    · intro hkeeps w hw l own hown
      have hsign := (hsigns l (lastPlural w)).mpr ⟨w, hw, ⟨own, hown⟩, rfl⟩
      exact (hkeeps l _ own hsign (wordings_subset hw hown)).symm
    · intro hbound l binder own hsign hown
      obtain ⟨w, hw, ⟨own', hown'⟩, rfl⟩ := (hsigns l binder).mp hsign
      rw [← hbound w hw l own' hown']
      exact hdistinct.binder_eq (wordings_subset hw hown') hown

/-- Text behind a plural does not touch its number signs. -/
theorem hoistSelectors_keeps_signs_before_text :
    ∃ elements hoisted, parse "{n, plural, one{#}}!" {} = .ok elements ∧
      hoistSelectors elements = .ok hoisted ∧
      ∀ l binder own, .sign l binder ∈ marks hoisted → .sign l own ∈ marks elements →
        binder = own := by
  have hparse : parse "{n, plural, one{#}}!" {} =
      .ok [.selector (.plural .cardinal 0) "n" [⟨"one", [.pound (.inLine 16 17)], .inLine 15 18⟩]
        (.inLine 0 19), .literal "!" (.inLine 19 20)] := rfl
  exact ⟨_, _, hparse, rfl, (hoistSelectors_keeps_signs_iff hparse rfl).2.mpr rfl⟩

/-- A plural behind another takes over its number signs. -/
theorem hoistSelectors_rebinds_sign :
    ∃ elements hoisted l binder own,
      parse "{n, plural, one{#}}{m, plural, one{x}}" {} = .ok elements ∧
      hoistSelectors elements = .ok hoisted ∧
      .sign l (some binder) ∈ marks hoisted ∧ .sign l (some own) ∈ marks elements ∧
      binder.name = "m" ∧ own.name = "n" := by
  refine ⟨[.selector (.plural .cardinal 0) "n" [⟨"one", [.pound (.inLine 16 17)], .inLine 15 18⟩]
      (.inLine 0 19),
    .selector (.plural .cardinal 0) "m" [⟨"one", [.literal "x" (.inLine 35 36)], .inLine 34 37⟩]
      (.inLine 19 38)],
    [.selector (.plural .cardinal 0) "n"
      [⟨"one", [.selector (.plural .cardinal 0) "m"
        [⟨"one", [.pound (.inLine 16 17), .literal "x" (.inLine 35 36)], .inLine 34 37⟩]
        (.inLine 19 38)], .inLine 15 18⟩] (.inLine 0 19)],
    .inLine 16 17, ⟨"m", .cardinal, 0, .inLine 19 38⟩, ⟨"n", .cardinal, 0, .inLine 0 19⟩,
    rfl, rfl, ?_, ?_, rfl, rfl⟩
  · decide
  · decide

end MessagePattern
