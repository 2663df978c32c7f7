/-
# Trees survive as JSON

A tree that is written as JSON is read back as it was, provided that JSON can hold
it: integers are in the range of their field, scale factors are finite, and no
selector of an argument occurs twice.  Trees of other kinds are not read back,
since a reader never gives one; so whatever was read from JSON can be written and
read again.

Readers accept more than writers produce, such as fields in another order, so
reading and then writing need not give the same JSON.  Nothing is said about that.
-/

import MessagePattern.Proofs.JsonCodec

namespace MessagePattern

open Json

/-! ## Elements -/

/-- The offset of a plural fits its field. -/
def SelectorKind.Representable : SelectorKind → Prop
  | .plural _ offset => -0x8000000000000000 ≤ offset ∧ offset ≤ 0x7FFFFFFFFFFFFFFF
  | .select => True

mutual

/-- JSON can hold the element and everything in it. -/
def Element.Representable : Element → Prop
  | .literal _ location => location.Representable
  | .argument _ location => location.Representable
  | .number _ style location =>
    (∀ s ∈ style, s.Holds NumberSkeleton.Representable) ∧ location.Representable
  | .dateTime _ _ style location =>
    (∀ s ∈ style, s.Holds DateTimeSkeleton.Representable) ∧ location.Representable
  | .selector kind _ branches location =>
    kind.Representable ∧ (branches.map Branch.selector).Nodup ∧
      BranchesRepresentable branches ∧ location.Representable
  | .pound location => location.Representable
  | .tag _ children location => ElementsRepresentable children ∧ location.Representable

/-- JSON can hold all of the elements. -/
def ElementsRepresentable : List Element → Prop
  | [] => True
  | e :: es => e.Representable ∧ ElementsRepresentable es

/-- JSON can hold what the branches say. -/
def BranchesRepresentable : List (Branch Element) → Prop
  | [] => True
  | ⟨_, value, location⟩ :: branches =>
    (ElementsRepresentable value ∧ location.Representable) ∧ BranchesRepresentable branches

end

theorem elementsRepresentable_iff {es : List Element} :
    ElementsRepresentable es ↔ ∀ e ∈ es, e.Representable := by
  induction es with
  | nil => simp [ElementsRepresentable]
  | cons e es ih => rw [ElementsRepresentable, ih, List.forall_mem_cons]

theorem branchesRepresentable_iff {branches : List (Branch Element)} :
    BranchesRepresentable branches ↔
      ∀ b ∈ branches, ElementsRepresentable b.value ∧ b.location.Representable := by
  induction branches with
  | nil => simp [BranchesRepresentable]
  | cons b branches ih => rw [BranchesRepresentable, ih, List.forall_mem_cons]

theorem itemsToJson_eq_map (es : List Element) : itemsToJson es = es.map Element.toJson := by
  induction es with
  | nil => rfl
  | cons e es ih => rw [itemsToJson, ih, List.map_cons]

/-- A branch as JSON: the pair of its selector and the rest of it. -/
def Branch.toJson (b : Branch Element) : Json :=
  .arr [.str b.selector,
    .obj [("value", elementsToJson b.value), ("location", b.location.toJson)]]

theorem branchesToJson_eq_map (branches : List (Branch Element)) :
    branchesToJson branches = branches.map Branch.toJson := by
  induction branches with
  | nil => rfl
  | cons b branches ih =>
      rw [branchesToJson, ih, List.map_cons]
      rfl

/-! ### Branches -/

namespace Branch

/-- Branches with selectors of their own are entered one behind the other. -/
theorem foldl_insert_of_nodup {known branches : List (Branch Element)}
    (h : ((known ++ branches).map selector).Nodup) :
    branches.foldl insert known = known ++ branches := by
  induction branches generalizing known with
  | nil => simp
  | cons b branches ih =>
      have hfresh : known.any (·.selector == b.selector) = false := by
        rw [List.any_eq_false]
        intro other hother
        rw [List.map_append, List.nodup_append] at h
        simpa using h.2.2 _ (List.mem_map_of_mem hother) b.selector (by simp)
      have hinsert : insert known b = known ++ [b] := by
        rw [insert, hfresh]
        rfl
      rw [List.foldl_cons, hinsert, ih (by simpa using h), List.append_assoc,
        List.singleton_append]

theorem nodup_insert {known : List (Branch Element)} (h : (known.map selector).Nodup)
    (b : Branch Element) : ((insert known b).map selector).Nodup := by
  unfold insert
  split
  · -- A branch that takes the place of another has its selector.
    have hsame : (known.map fun other => if other.selector == b.selector then b else other).map
        selector = known.map selector := by
      rw [List.map_map]
      apply List.map_congr_left
      intro other _
      simp only [Function.comp_apply]
      split
      · next heq => exact (beq_iff_eq.mp heq).symm
      · rfl
    rwa [hsame]
  · next hfresh =>
      rw [List.map_append, List.nodup_append]
      refine ⟨h, by simp, ?_⟩
      intro first hfirst second hsecond heq
      obtain ⟨other, hother, rfl⟩ := List.mem_map.mp hfirst
      rw [List.map_singleton, List.mem_singleton] at hsecond
      rw [hsecond] at heq
      exact hfresh (List.any_eq_true.mpr ⟨other, hother, beq_iff_eq.mpr heq⟩)

theorem nodup_foldl_insert {known : List (Branch Element)} (h : (known.map selector).Nodup)
    (branches : List (Branch Element)) : ((branches.foldl insert known).map selector).Nodup := by
  induction branches generalizing known with
  | nil => exact h
  | cons b branches ih => exact ih (nodup_insert h b)

theorem mem_of_mem_insert {known : List (Branch Element)} {b c : Branch Element}
    (h : c ∈ insert known b) : c ∈ known ∨ c = b := by
  unfold insert at h
  split at h
  · obtain ⟨other, hother, rfl⟩ := List.mem_map.mp h
    split
    · exact .inr rfl
    · exact .inl hother
  · simpa using h

theorem mem_of_mem_foldl_insert {known branches : List (Branch Element)} {c : Branch Element}
    (h : c ∈ branches.foldl insert known) : c ∈ known ∨ c ∈ branches := by
  induction branches generalizing known with
  | nil => exact .inl h
  | cons b branches ih =>
      rcases ih h with hknown | hrest
      · rcases mem_of_mem_insert hknown with hknown | rfl
        · exact .inl hknown
        · exact .inr List.mem_cons_self
      · exact .inr (List.mem_cons_of_mem b hrest)

end Branch

/-! ### Nested lists of elements -/

namespace Json

theorem nesting_lt_arr {items : List Json} {j : Json} (h : j ∈ items) :
    j.nesting < (Json.arr items).nesting := by
  rw [nesting, Nat.lt_succ_iff]
  induction items with
  | nil => cases h
  | cons first items ih =>
      rw [nestingItems]
      rcases List.mem_cons.mp h with rfl | h
      · exact Nat.le_max_left _ _
      · exact Nat.le_trans (ih h) (Nat.le_max_right _ _)

theorem nesting_lt_obj {fields : List (String × Json)} (key : String) {j : Json}
    (h : (key, j) ∈ fields) : j.nesting < (Json.obj fields).nesting := by
  rw [nesting, Nat.lt_succ_iff]
  induction fields with
  | nil => cases h
  | cons first fields ih =>
      rw [nestingFields]
      rcases List.mem_cons.mp h with rfl | h
      · exact Nat.le_max_left _ _
      · exact Nat.le_trans (ih h) (Nat.le_max_right _ _)

end Json

section Nested

variable {inner : Json → Option (List Element)}

/-- A branch is read back if what it says is. -/
theorem Branch.ofJson?_toJson {b : Branch Element}
    (hvalue : inner (elementsToJson b.value) = some b.value) (h : b.location.Representable) :
    Branch.ofJson? inner b.toJson = some b := by
  simp only [Branch.ofJson?, Branch.toJson, Option.bind_eq_bind, Option.bind_eq_some_iff]
  exact ⟨_, rfl, _, hvalue, _, Codec.location.required rfl h, rfl⟩

/-- Branches with selectors of their own are read back if what they say is. -/
theorem branchesOfJson?_toJson {branches : List (Branch Element)}
    (hvalues : ∀ b ∈ branches, inner (elementsToJson b.value) = some b.value)
    (hkeys : (branches.map Branch.selector).Nodup)
    (h : ∀ b ∈ branches, b.location.Representable) :
    branchesOfJson? inner (.arr (branchesToJson branches)) = some branches := by
  have hlist : list? (Branch.ofJson? inner) (.arr (branchesToJson branches)) = some branches := by
    rw [branchesToJson_eq_map]
    exact mapM_map_eq_some fun b hb => Branch.ofJson?_toJson (hvalues b hb) (h b hb)
  rw [branchesOfJson?, hlist, Option.map_some]
  exact congrArg some (Branch.foldl_insert_of_nodup (by simpa using hkeys))

theorem nesting_branch_lt {branches : List (Branch Element)} {b : Branch Element}
    (h : b ∈ branches) :
    (elementsToJson b.value).nesting < (Json.arr (branchesToJson branches)).nesting := by
  have hfields : (elementsToJson b.value).nesting <
      (Json.obj [("value", elementsToJson b.value), ("location", b.location.toJson)]).nesting :=
    nesting_lt_obj "value" List.mem_cons_self
  have hpair : (Json.obj [("value", elementsToJson b.value),
      ("location", b.location.toJson)]).nesting < b.toJson.nesting :=
    nesting_lt_arr (List.mem_cons_of_mem _ List.mem_cons_self)
  have hlist : b.toJson.nesting < (Json.arr (branchesToJson branches)).nesting := by
    rw [branchesToJson_eq_map]
    exact nesting_lt_arr (List.mem_map_of_mem h)
  omega

/-- An element is read back if the lists of elements in it are. -/
theorem Element.ofJson?_toJson {e : Element} (h : e.Representable)
    (hinner : ∀ es, ElementsRepresentable es → (elementsToJson es).nesting < e.toJson.nesting →
      inner (elementsToJson es) = some es) : Element.ofJson? inner e.toJson = some e := by
  simp only [Element.ofJson?, Option.bind_eq_bind, Option.bind_eq_some_iff]
  cases e with
  | literal text l =>
      refine ⟨_, rfl, .literal, Codec.keyword.required rfl trivial, l,
        Codec.location.required rfl h, ?_⟩
      simp only [Option.bind_eq_some_iff]
      exact ⟨_, Codec.str.required rfl trivial, rfl⟩
  | argument name l =>
      refine ⟨_, rfl, .argument, Codec.keyword.required rfl trivial, l,
        Codec.location.required rfl h, ?_⟩
      simp only [Option.bind_eq_some_iff]
      exact ⟨_, Codec.str.required rfl trivial, rfl⟩
  | number name style l =>
      refine ⟨_, rfl, .number, Codec.keyword.required rfl trivial, l,
        Codec.location.required rfl h.2, ?_⟩
      simp only [Option.bind_eq_some_iff]
      exact ⟨_, Codec.str.required rfl trivial, _, Codec.numberStyle.unsettable_optional rfl h.1,
        rfl⟩
  | dateTime kind name style l =>
      cases kind with
      | date =>
          refine ⟨_, rfl, .date, Codec.keyword.required rfl trivial, l,
            Codec.location.required rfl h.2, ?_⟩
          simp only [Option.bind_eq_some_iff]
          exact ⟨_, Codec.str.required rfl trivial, _,
            Codec.dateTimeStyle.unsettable_optional rfl h.1, rfl⟩
      | time =>
          refine ⟨_, rfl, .time, Codec.keyword.required rfl trivial, l,
            Codec.location.required rfl h.2, ?_⟩
          simp only [Option.bind_eq_some_iff]
          exact ⟨_, Codec.str.required rfl trivial, _,
            Codec.dateTimeStyle.unsettable_optional rfl h.1, rfl⟩
  | selector kind name branches l =>
      obtain ⟨hkind, hkeys, hbranches, hlocation⟩ := h
      rw [branchesRepresentable_iff] at hbranches
      have hnested : (Json.arr (branchesToJson branches)).nesting <
          (Element.selector kind name branches l).toJson.nesting := by
        cases kind with
        | plural type offset => exact nesting_lt_obj "options" (by simp)
        | select => exact nesting_lt_obj "options" (by simp)
      have hread : branchesOfJson? inner (.arr (branchesToJson branches)) = some branches := by
        apply branchesOfJson?_toJson _ hkeys fun b hb => (hbranches b hb).2
        intro b hb
        exact hinner b.value (hbranches b hb).1 (Nat.lt_trans (nesting_branch_lt hb) hnested)
      cases kind with
      | plural type offset =>
          refine ⟨_, rfl, .plural, Codec.keyword.required rfl trivial, l,
            Codec.location.required rfl hlocation, ?_⟩
          simp only [Option.bind_eq_some_iff]
          exact ⟨_, Codec.str.required rfl trivial, _, hread, _,
            (Codec.int _ _).required rfl hkind, _, Codec.keyword.required rfl trivial, rfl⟩
      | select =>
          refine ⟨_, rfl, .select, Codec.keyword.required rfl trivial, l,
            Codec.location.required rfl hlocation, ?_⟩
          simp only [Option.bind_eq_some_iff]
          exact ⟨_, Codec.str.required rfl trivial, _, hread, rfl⟩
  | pound l =>
      exact ⟨_, rfl, .pound, Codec.keyword.required rfl trivial, l,
        Codec.location.required rfl h, rfl⟩
  | tag name children l =>
      have hchildren : inner (elementsToJson children) = some children :=
        hinner children h.1 (nesting_lt_obj "children" (by simp [elementsToJson]))
      refine ⟨_, rfl, .tag, Codec.keyword.required rfl trivial, l,
        Codec.location.required rfl h.2, ?_⟩
      simp only [Option.bind_eq_some_iff]
      exact ⟨_, Codec.str.required rfl trivial, _, hchildren, rfl⟩

/-- What is read as branches can be held by JSON if what the branches say can. -/
theorem branchesRepresentable_of_read {branches : List (Branch Element)} {j : Json}
    (hinner : ∀ j es, inner j = some es → ElementsRepresentable es)
    (h : branchesOfJson? inner j = some branches) :
    (branches.map Branch.selector).Nodup ∧ BranchesRepresentable branches := by
  obtain ⟨entries, hentries, rfl⟩ := Option.map_eq_some_iff.mp h
  have hempty : (([] : List (Branch Element)).map Branch.selector).Nodup := List.nodup_nil
  refine ⟨Branch.nodup_foldl_insert hempty entries, ?_⟩
  rw [branchesRepresentable_iff]
  intro b hb
  have hmem : b ∈ entries := by simpa using Branch.mem_of_mem_foldl_insert hb
  cases j with
  | arr items =>
      obtain ⟨pair, -, hpair⟩ := exists_of_mapM_eq_some hentries hmem
      unfold Branch.ofJson? at hpair
      split at hpair
      · simp only [Option.bind_eq_bind, Option.bind_eq_some_iff] at hpair
        obtain ⟨_, -, _, hvalue, _, hlocation, hb⟩ := hpair
        cases hb
        obtain ⟨_, -, hvalue⟩ := Option.bind_eq_some_iff.mp hvalue
        exact ⟨hinner _ _ hvalue, Codec.location.of_required hlocation⟩
      · cases hpair
  | _ => cases hentries

/-- What is read as an element can be held by JSON if the lists in it can. -/
theorem Element.representable_of_read {e : Element} {j : Json}
    (hinner : ∀ j es, inner j = some es → ElementsRepresentable es)
    (h : Element.ofJson? inner j = some e) : e.Representable := by
  simp only [Element.ofJson?, Option.bind_eq_bind, Option.bind_eq_some_iff] at h
  obtain ⟨fields, -, type, -, l, hlocation, h⟩ := h
  have hl := Codec.location.of_required hlocation
  cases type with
  | literal =>
      obtain ⟨_, -, he⟩ := Option.bind_eq_some_iff.mp h
      cases he
      exact hl
  | argument =>
      obtain ⟨_, -, he⟩ := Option.bind_eq_some_iff.mp h
      cases he
      exact hl
  | number =>
      simp only [Option.bind_eq_some_iff] at h
      obtain ⟨_, -, _, hstyle, he⟩ := h
      cases he
      exact ⟨Codec.numberStyle.of_unsettable hstyle, hl⟩
  | date =>
      simp only [Option.bind_eq_some_iff] at h
      obtain ⟨_, -, _, hstyle, he⟩ := h
      cases he
      exact ⟨Codec.dateTimeStyle.of_unsettable hstyle, hl⟩
  | time =>
      simp only [Option.bind_eq_some_iff] at h
      obtain ⟨_, -, _, hstyle, he⟩ := h
      cases he
      exact ⟨Codec.dateTimeStyle.of_unsettable hstyle, hl⟩
  | plural =>
      simp only [Option.bind_eq_some_iff] at h
      obtain ⟨_, -, _, hoptions, _, hoffset, _, -, he⟩ := h
      cases he
      obtain ⟨_, -, hoptions⟩ := Option.bind_eq_some_iff.mp hoptions
      obtain ⟨hkeys, hbranches⟩ := branchesRepresentable_of_read hinner hoptions
      exact ⟨(Codec.int _ _).of_required hoffset, hkeys, hbranches, hl⟩
  | select =>
      simp only [Option.bind_eq_some_iff] at h
      obtain ⟨_, -, _, hoptions, he⟩ := h
      cases he
      obtain ⟨_, -, hoptions⟩ := Option.bind_eq_some_iff.mp hoptions
      obtain ⟨hkeys, hbranches⟩ := branchesRepresentable_of_read hinner hoptions
      exact ⟨trivial, hkeys, hbranches, hl⟩
  | pound =>
      cases h
      exact hl
  | tag =>
      simp only [Option.bind_eq_some_iff] at h
      obtain ⟨_, -, _, hchildren, he⟩ := h
      cases he
      obtain ⟨_, -, hchildren⟩ := Option.bind_eq_some_iff.mp hchildren
      exact ⟨hinner _ _ hchildren, hl⟩

end Nested

/-! ## Trees -/

theorem elementsWithin?_elementsToJson {bound : Nat} {es : List Element}
    (h : ElementsRepresentable es) (hbound : (elementsToJson es).nesting ≤ bound) :
    elementsWithin? bound (elementsToJson es) = some es := by
  induction bound generalizing es with
  | zero => simp [elementsToJson, nesting] at hbound
  | succ bound ih =>
      rw [elementsToJson, itemsToJson_eq_map] at hbound ⊢
      apply mapM_map_eq_some
      intro e he
      apply Element.ofJson?_toJson (elementsRepresentable_iff.mp h e he)
      intro nested hnested hless
      have hitem : e.toJson.nesting < (Json.arr (es.map Element.toJson)).nesting :=
        nesting_lt_arr (List.mem_map_of_mem he)
      exact ih hnested (by omega)

theorem elementsRepresentable_of_read {bound : Nat} {j : Json} {es : List Element}
    (h : elementsWithin? bound j = some es) : ElementsRepresentable es := by
  induction bound generalizing j es with
  | zero => cases h
  | succ bound ih =>
      cases j with
      | arr items =>
          rw [elementsRepresentable_iff]
          intro e he
          obtain ⟨item, -, hitem⟩ := exists_of_mapM_eq_some h he
          exact Element.representable_of_read (fun _ _ => ih) hitem
      | _ => cases h

/-- Trees survive as JSON.  A tree is read as it was written exactly if JSON can
hold it; and whatever was read from JSON is such a tree, so reading it, writing
it and reading it again gives what the first reading gave. -/
theorem json_round_trip :
    (∀ es, elementsOfJson? (elementsToJson es) = some es ↔ ElementsRepresentable es) ∧
      ∀ j es, elementsOfJson? j = some es → elementsOfJson? (elementsToJson es) = some es := by
  have hread {j : Json} {es : List Element} (h : elementsOfJson? j = some es) :
      ElementsRepresentable es :=
    elementsRepresentable_of_read h
  have hback {es : List Element} (h : ElementsRepresentable es) :
      elementsOfJson? (elementsToJson es) = some es :=
    elementsWithin?_elementsToJson h (Nat.le_refl _)
  exact ⟨fun es => ⟨hread, hback⟩, fun j es h => hback (hread h)⟩

/-- Fields in another order, a missing style, a boolean that is no name of a mode
and an integer that is a scale factor. -/
theorem json_round_trip_number :
    let place : Json := .obj [
      ("end", .obj [("offset", .int 9), ("line", .int 1), ("column", .int 10)]),
      ("start", .obj [("offset", .int 0), ("line", .int 1), ("column", .int 1)])]
    let l : Location := ⟨.start, ⟨9, 1, 10⟩⟩
    let es : List Element := [
      .number "n" (some (.skeleton ⟨[⟨"scale", ["5"]⟩], l,
        some { useGrouping := some (.enabled false), scale := some (.ofInt 5) }⟩)) l,
      .dateTime .time "t" none l]
    elementsOfJson? (.arr [
      .obj [("name", .str "n"), ("type", .str "number"), ("location", place),
        ("style", .obj [
          ("parsedOptions", .obj [("useGrouping", .bool false), ("scale", .int 5)]),
          ("tokens", .arr [.obj [("options", .arr [.str "5"]), ("stem", .str "scale")]]),
          ("location", place)])],
      .obj [("name", .str "t"), ("type", .str "time"), ("location", place)]]) = some es ∧
    elementsOfJson? (elementsToJson es) = some es := by
  intro place l es
  suffices hread : elementsOfJson? _ = some es from ⟨hread, json_round_trip.2 _ _ hread⟩
  rfl

end MessagePattern
