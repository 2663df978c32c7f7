/-
# Number signs and the plurals they belong to

A number sign stands for the number of the nearest plural around it.  The `marks`
of a message are its plurals and its number signs in the order of the text, each
sign with the plural that it belongs to.

A reader of the finished message never sees all branches at once.  A wording is
what is met when every selector is resolved to one of its branches; `wordings`
are the marks of all of them.  In a wording the plurals come in the order in which
they were met, and the question that matters for rewriting is whether every
number sign belongs to the last of them.  `signsLast` decides this from the
message alone: no sign may stand before a plural that is not around it, and no
sign may stand behind a plural while it belongs to one further out.
-/

import Mathlib.Data.List.Nodup
import MessagePattern.Proofs.Hoisting

namespace MessagePattern

/-- A plural, as far as it can be told from other plurals without its branches. -/
structure PluralHeader where
  name : String
  type : PluralType
  offset : Int
  location : Location
  deriving DecidableEq

/-- What counts in a message for the meaning of its number signs. -/
inductive Mark
  | plural (header : PluralHeader)
  /-- A number sign, and the nearest plural around it. -/
  | sign (location : Location) (binder : Option PluralHeader)
  deriving DecidableEq

namespace Mark

/-- Where a mark stands. -/
def location : Mark → Location
  | .plural header => header.location
  | .sign location _ => location

def isPlural : Mark → Bool
  | .plural _ => true
  | .sign _ _ => false

def isSign : Mark → Bool
  | .plural _ => false
  | .sign _ _ => true

/-- Number signs that no plural is around. -/
def isFree : Mark → Bool
  | .sign _ none => true
  | _ => false

/-- The mark inside a plural, which takes the signs that no plural is around yet. -/
def bindTo (header : PluralHeader) : Mark → Mark
  | .plural inner => .plural inner
  | .sign location binder => .sign location (binder.or (some header))

end Mark

/-- Marks inside a plural, or inside something else. -/
def enclose : Option PluralHeader → List Mark → List Mark
  | some header, ms => .plural header :: ms.map (Mark.bindTo header)
  | none, ms => ms

/-- What a selector is to the number signs in it. -/
def SelectorKind.header? (kind : SelectorKind) (name : String) (location : Location) :
    Option PluralHeader :=
  match kind with
  | .plural type offset => some ⟨name, type, offset, location⟩
  | .select => none

mutual

/-- The plurals and number signs of an element, in all branches. -/
def Element.marks : Element → List Mark
  | .selector kind name branches location =>
    enclose (kind.header? name location) (branchMarks branches)
  | .pound location => [.sign location none]
  | .tag _ children _ => marks children
  | _ => []

/-- The plurals and number signs of a list of elements. -/
def marks : List Element → List Mark
  | [] => []
  | e :: es => e.marks ++ marks es

/-- The plurals and number signs of branches. -/
def branchMarks : List (Branch Element) → List Mark
  | [] => []
  | ⟨_, value, _⟩ :: branches => marks value ++ branchMarks branches

end

mutual

/-- The marks of an element for each way to choose a branch of every selector. -/
def Element.wordings : Element → List (List Mark)
  | .selector kind name branches location =>
    (branchWordings branches).map (enclose (kind.header? name location))
  | .pound location => [[.sign location none]]
  | .tag _ children _ => wordings children
  | _ => [[]]

/-- The marks of a list of elements for each way to choose branches. -/
def wordings : List Element → List (List Mark)
  | [] => [[]]
  | e :: es => e.wordings.flatMap fun u => (wordings es).map (u ++ ·)

/-- The marks of the branch that is chosen, for each way to choose. -/
def branchWordings : List (Branch Element) → List (List Mark)
  | [] => []
  | ⟨_, value, _⟩ :: branches => wordings value ++ branchWordings branches

end

/-- The last plural among marks. -/
def lastPlural : List Mark → Option PluralHeader
  | [] => none
  | .plural header :: ms => (lastPlural ms).or (some header)
  | .sign _ _ :: ms => lastPlural ms

/-- Neighbouring parts of a message leave each other's number signs alone. -/
def leavesAlone (first second : List Mark) : Bool :=
  !(first.any Mark.isSign && second.any Mark.isPlural)
    && !(first.any Mark.isPlural && second.any Mark.isFree)

mutual

/-- In every wording of the element the number signs belong to its last plural. -/
def Element.signsLast : Element → Bool
  | .selector _ _ branches _ => branchSignsLast branches
  | .tag _ children _ => signsLast children
  | _ => true

/-- In every wording of a list of elements the number signs belong to its last
plural. -/
def signsLast : List Element → Bool
  | [] => true
  | e :: es => e.signsLast && leavesAlone e.marks (marks es) && signsLast es

/-- In every wording of every branch the number signs belong to its last plural. -/
def branchSignsLast : List (Branch Element) → Bool
  | [] => true
  | ⟨_, value, _⟩ :: branches => signsLast value && branchSignsLast branches

end

/-! ## Wordings -/

theorem mem_wordings_cons {e : Element} {es : List Element} {w : List Mark} :
    w ∈ wordings (e :: es) ↔ ∃ u ∈ e.wordings, ∃ v ∈ wordings es, w = u ++ v := by
  simp only [wordings, List.mem_flatMap, List.mem_map, eq_comm]

theorem mem_wordings_append {first second : List Element} {w : List Mark} :
    w ∈ wordings (first ++ second) ↔
      ∃ u ∈ wordings first, ∃ v ∈ wordings second, w = u ++ v := by
  induction first generalizing w with
  | nil => simp [wordings]
  | cons e es ih =>
      simp only [List.cons_append, mem_wordings_cons, ih]
      constructor
      · rintro ⟨u, hu, -, ⟨v, hv, v', hv', rfl⟩, rfl⟩
        exact ⟨u ++ v, ⟨u, hu, v, hv, rfl⟩, v', hv', by rw [List.append_assoc]⟩
      · rintro ⟨-, ⟨u, hu, v, hv, rfl⟩, v', hv', rfl⟩
        exact ⟨u, hu, v ++ v', ⟨v, hv, v', hv', rfl⟩, by rw [List.append_assoc]⟩

theorem mem_branchWordings {w : List Mark} {branches : List (Branch Element)} :
    w ∈ branchWordings branches ↔ ∃ b ∈ branches, w ∈ wordings b.value := by
  induction branches with
  | nil => simp [branchWordings]
  | cons b branches ih => simp [branchWordings, ih]

/-! ## The last plural -/

theorem lastPlural_append (u v : List Mark) :
    lastPlural (u ++ v) = (lastPlural v).or (lastPlural u) := by
  induction u with
  | nil => simp [lastPlural]
  | cons m u ih =>
      cases m with
      | plural header => simp [lastPlural, ih]
      | sign location binder => simp [lastPlural, ih]

theorem lastPlural_map_bindTo (header : PluralHeader) (w : List Mark) :
    lastPlural (w.map (Mark.bindTo header)) = lastPlural w := by
  induction w with
  | nil => rfl
  | cons m w ih => cases m <;> simp [Mark.bindTo, lastPlural, ih]

theorem lastPlural_enclose (header? : Option PluralHeader) (w : List Mark) :
    lastPlural (enclose header? w) = (lastPlural w).or header? := by
  cases header? with
  | none => simp [enclose]
  | some header => simp [enclose, lastPlural, lastPlural_map_bindTo]

theorem plural_mem_of_lastPlural {w : List Mark} {header : PluralHeader}
    (h : lastPlural w = some header) : .plural header ∈ w := by
  induction w with
  | nil => cases h
  | cons m w ih =>
      cases m with
      | plural first =>
          rw [lastPlural, Option.or_eq_some_iff] at h
          rcases h with hlast | ⟨-, hfirst⟩
          · exact List.mem_cons_of_mem _ (ih hlast)
          · cases hfirst
            exact List.mem_cons_self
      | sign location binder => exact List.mem_cons_of_mem _ (ih h)

theorem lastPlural_ne_none {w : List Mark} {header : PluralHeader} (h : .plural header ∈ w) :
    lastPlural w ≠ none := by
  obtain ⟨u, v, rfl⟩ := List.append_of_mem h
  simp [lastPlural_append, lastPlural]

theorem sign_mem_enclose {header? : Option PluralHeader} {w : List Mark} {l : Location}
    {binder : Option PluralHeader} :
    .sign l binder ∈ enclose header? w ↔
      ∃ inner, .sign l inner ∈ w ∧ binder = inner.or header? := by
  cases header? with
  | none => simp [enclose]
  | some header =>
      simp only [enclose, List.mem_cons, reduceCtorEq, false_or, List.mem_map]
      constructor
      · rintro ⟨m, hm, hbind⟩
        cases m with
        | plural inner => cases hbind
        | sign location inner =>
            cases hbind
            exact ⟨inner, hm, rfl⟩
      · rintro ⟨inner, hm, rfl⟩
        exact ⟨.sign l inner, hm, rfl⟩

theorem plural_mem_enclose {header? : Option PluralHeader} {w : List Mark}
    {header : PluralHeader} :
    .plural header ∈ enclose header? w ↔ header? = some header ∨ .plural header ∈ w := by
  cases header? with
  | none => simp [enclose]
  | some outer =>
      simp only [enclose, List.mem_cons, Mark.plural.injEq, List.mem_map, Option.some.injEq]
      constructor
      · rintro (rfl | ⟨m, hm, hbind⟩)
        · exact .inl rfl
        · cases m with
          | plural inner =>
              cases hbind
              exact .inr hm
          | sign location binder => cases hbind
      · rintro (rfl | hm)
        · exact .inl rfl
        · exact .inr ⟨.plural header, hm, rfl⟩

theorem enclose_subset {u v : List Mark} (header? : Option PluralHeader) (h : u ⊆ v) :
    enclose header? u ⊆ enclose header? v := by
  cases header? with
  | none => exact h
  | some header => exact List.cons_subset_cons _ (List.map_subset _ h)

theorem location_enclose (header? : Option PluralHeader) (ms : List Mark) :
    (enclose header? ms).map Mark.location =
      (header?.map PluralHeader.location).toList ++ ms.map Mark.location := by
  have hbind (header : PluralHeader) (m : Mark) : (m.bindTo header).location = m.location := by
    cases m <;> rfl
  cases header? with
  | none => rfl
  | some header =>
      simp only [enclose, List.map_cons, List.map_map, Function.comp_def, hbind]
      rfl

/-! ## What the wordings of a message have in common -/

mutual

theorem Element.wordings_subset : ∀ {e : Element} {w : List Mark}, w ∈ e.wordings → w ⊆ e.marks
  | .selector _ _ _ _, _, h => by
      obtain ⟨v, hv, rfl⟩ := List.mem_map.mp h
      exact enclose_subset _ (branchWordings_subset hv)
  | .tag _ _ _, _, h => wordings_subset h
  | .pound _, _, h => by
      rw [List.mem_singleton.mp h]
      exact List.Subset.refl _
  | .literal _ _, _, h => by simp [List.mem_singleton.mp h]
  | .argument _ _, _, h => by simp [List.mem_singleton.mp h]
  | .number _ _ _, _, h => by simp [List.mem_singleton.mp h]
  | .dateTime _ _ _ _, _, h => by simp [List.mem_singleton.mp h]

/-- The marks of a wording are marks of the message. -/
theorem wordings_subset : ∀ {es : List Element} {w : List Mark}, w ∈ wordings es → w ⊆ marks es
  | [], _, h => by simp [List.mem_singleton.mp h]
  | _ :: _, _, h => by
      obtain ⟨u, hu, v, hv, rfl⟩ := mem_wordings_cons.mp h
      exact List.append_subset.mpr
        ⟨List.Subset.trans (Element.wordings_subset hu) (List.subset_append_left _ _),
          List.Subset.trans (wordings_subset hv) (List.subset_append_right _ _)⟩

theorem branchWordings_subset :
    ∀ {branches : List (Branch Element)} {w : List Mark}, w ∈ branchWordings branches →
      w ⊆ branchMarks branches
  | ⟨_, _, _⟩ :: _, _, h => by
      rcases List.mem_append.mp h with hfirst | hrest
      · exact List.Subset.trans (wordings_subset hfirst) (List.subset_append_left _ _)
      · exact List.Subset.trans (branchWordings_subset hrest) (List.subset_append_right _ _)

end

mutual

theorem Element.exists_wording : ∀ {e : Element}, e.Branching → ∃ w, w ∈ e.wordings
  | .selector _ _ (⟨_, _, _⟩ :: _) _, h => by
      obtain ⟨w, hw⟩ := MessagePattern.exists_wording h.2.1
      exact ⟨_, List.mem_map_of_mem (List.mem_append_left _ hw)⟩
  | .selector _ _ [] _, h => absurd rfl h.1
  | .tag _ children _, h => MessagePattern.exists_wording (show Branching children from h)
  | .pound _, _ => ⟨_, List.mem_singleton_self _⟩
  | .literal _ _, _ => ⟨_, List.mem_singleton_self _⟩
  | .argument _ _, _ => ⟨_, List.mem_singleton_self _⟩
  | .number _ _ _, _ => ⟨_, List.mem_singleton_self _⟩
  | .dateTime _ _ _ _, _ => ⟨_, List.mem_singleton_self _⟩

/-- If every selector has a branch, then there is a way to choose. -/
theorem exists_wording : ∀ {es : List Element}, Branching es → ∃ w, w ∈ wordings es
  | [], _ => ⟨_, List.mem_singleton_self _⟩
  | _ :: _, h => by
      obtain ⟨u, hu⟩ := Element.exists_wording h.1
      obtain ⟨v, hv⟩ := MessagePattern.exists_wording h.2
      exact ⟨u ++ v, mem_wordings_cons.mpr ⟨u, hu, v, hv, rfl⟩⟩

end

mutual

theorem Element.exists_wording_of_mem :
    ∀ {e : Element}, e.Branching → ∀ m ∈ e.marks, ∃ w ∈ e.wordings, m ∈ w
  | .selector kind name branches location, h, m, hm => by
      have hcover : ∀ m ∈ branchMarks branches, ∃ w ∈ branchWordings branches, m ∈ w :=
        exists_branchWording_of_mem h.2
      cases m with
      | plural header =>
          rcases plural_mem_enclose.mp hm with hself | hinner
          · obtain ⟨w, hw⟩ := Element.exists_wording (e := .selector kind name branches location) h
            obtain ⟨v, -, rfl⟩ := List.mem_map.mp hw
            exact ⟨_, hw, plural_mem_enclose.mpr (.inl hself)⟩
          · obtain ⟨v, hv, hmem⟩ := hcover _ hinner
            exact ⟨_, List.mem_map_of_mem hv, plural_mem_enclose.mpr (.inr hmem)⟩
      | sign l binder =>
          obtain ⟨inner, hinner, rfl⟩ := sign_mem_enclose.mp hm
          obtain ⟨v, hv, hmem⟩ := hcover _ hinner
          exact ⟨_, List.mem_map_of_mem hv, sign_mem_enclose.mpr ⟨inner, hmem, rfl⟩⟩
  | .tag _ children _, h, m, hm => exists_wording_of_mem (show Branching children from h) m hm
  | .pound _, _, _, hm => ⟨_, List.mem_singleton_self _, hm⟩
  | .literal _ _, _, _, hm => by cases hm
  | .argument _ _, _, _, hm => by cases hm
  | .number _ _ _, _, _, hm => by cases hm
  | .dateTime _ _ _ _, _, _, hm => by cases hm

/-- If every selector has a branch, then every mark is met in some wording. -/
theorem exists_wording_of_mem :
    ∀ {es : List Element}, Branching es → ∀ m ∈ marks es, ∃ w ∈ wordings es, m ∈ w
  | [], _, _, hm => by cases hm
  | _ :: _, h, m, hm => by
      rcases List.mem_append.mp hm with hfirst | hrest
      · obtain ⟨u, hu, hmem⟩ := Element.exists_wording_of_mem h.1 m hfirst
        obtain ⟨v, hv⟩ := exists_wording h.2
        exact ⟨u ++ v, mem_wordings_cons.mpr ⟨u, hu, v, hv, rfl⟩, List.mem_append_left _ hmem⟩
      · obtain ⟨u, hu⟩ := Element.exists_wording h.1
        obtain ⟨v, hv, hmem⟩ := exists_wording_of_mem h.2 m hrest
        exact ⟨u ++ v, mem_wordings_cons.mpr ⟨u, hu, v, hv, rfl⟩, List.mem_append_right _ hmem⟩

theorem exists_branchWording_of_mem :
    ∀ {branches : List (Branch Element)}, BranchesBranching branches →
      ∀ m ∈ branchMarks branches, ∃ w ∈ branchWordings branches, m ∈ w
  | [], _, _, hm => by cases hm
  | ⟨_, _, _⟩ :: _, h, m, hm => by
      rcases List.mem_append.mp hm with hfirst | hrest
      · obtain ⟨w, hw, hmem⟩ := exists_wording_of_mem h.1 m hfirst
        exact ⟨w, List.mem_append_left _ hw, hmem⟩
      · obtain ⟨w, hw, hmem⟩ := exists_branchWording_of_mem h.2 m hrest
        exact ⟨w, List.mem_append_right _ hw, hmem⟩

end

/-- Marks among which every number sign that belongs to a plural is met with it. -/
def Complete (w : List Mark) : Prop :=
  ∀ l header, .sign l (some header) ∈ w → .plural header ∈ w

theorem Complete.append {u v : List Mark} (hu : Complete u) (hv : Complete v) :
    Complete (u ++ v) := by
  intro l header hsign
  rcases List.mem_append.mp hsign with hsign | hsign
  · exact List.mem_append_left _ (hu l header hsign)
  · exact List.mem_append_right _ (hv l header hsign)

theorem Complete.enclose {w : List Mark} (h : Complete w) (header? : Option PluralHeader) :
    Complete (enclose header? w) := by
  intro l header hsign
  obtain ⟨inner, hinner, hbinder⟩ := sign_mem_enclose.mp hsign
  rcases Option.or_eq_some_iff.mp hbinder.symm with hself | ⟨-, houter⟩
  · exact plural_mem_enclose.mpr (.inr (h l header (hself ▸ hinner)))
  · exact plural_mem_enclose.mpr (.inl houter)

mutual

theorem Element.complete_of_mem : ∀ {e : Element} {w : List Mark}, w ∈ e.wordings → Complete w
  | .selector _ _ _ _, _, h => by
      obtain ⟨v, hv, rfl⟩ := List.mem_map.mp h
      exact (complete_of_mem_branches hv).enclose _
  | .tag _ _ _, _, h => complete_of_mem h
  | .pound _, _, h => by simp [List.mem_singleton.mp h, Complete]
  | .literal _ _, _, h => by simp [List.mem_singleton.mp h, Complete]
  | .argument _ _, _, h => by simp [List.mem_singleton.mp h, Complete]
  | .number _ _ _, _, h => by simp [List.mem_singleton.mp h, Complete]
  | .dateTime _ _ _ _, _, h => by simp [List.mem_singleton.mp h, Complete]

/-- Whoever meets a number sign has met its plural. -/
theorem complete_of_mem : ∀ {es : List Element} {w : List Mark}, w ∈ wordings es → Complete w
  | [], _, h => by simp [List.mem_singleton.mp h, Complete]
  | _ :: _, _, h => by
      obtain ⟨u, hu, v, hv, rfl⟩ := mem_wordings_cons.mp h
      exact (Element.complete_of_mem hu).append (complete_of_mem hv)

theorem complete_of_mem_branches :
    ∀ {branches : List (Branch Element)} {w : List Mark}, w ∈ branchWordings branches → Complete w
  | ⟨_, _, _⟩ :: _, _, h => by
      rcases List.mem_append.mp h with hfirst | hrest
      · exact complete_of_mem hfirst
      · exact complete_of_mem_branches hrest

end

/-! ## Signs that belong to the last plural -/

/-- Every number sign of a wording belongs to its last plural. -/
def BoundLast (w : List Mark) : Prop :=
  ∀ l binder, .sign l binder ∈ w → binder = lastPlural w

/-- A default can be taken off two options that both differ from it. -/
theorem eq_of_or_eq_or {x y default? : Option PluralHeader}
    (hx : ∀ header ∈ default?, x ≠ some header) (hy : ∀ header ∈ default?, y ≠ some header)
    (h : x.or default? = y.or default?) : x = y := by
  cases default? with
  | none => simpa using h
  | some header =>
      have hx := hx header rfl
      have hy := hy header rfl
      cases x <;> cases y <;> simp_all

/-- A plural around a wording that does not occur in it makes no difference. -/
theorem boundLast_enclose {header? : Option PluralHeader} {w : List Mark} (hw : Complete w)
    (hfresh : ∀ header ∈ header?, .plural header ∉ w) :
    BoundLast (enclose header? w) ↔ BoundLast w := by
  constructor
  · intro h l inner hsign
    have hor := h l _ (sign_mem_enclose.mpr ⟨inner, hsign, rfl⟩)
    rw [lastPlural_enclose] at hor
    apply eq_of_or_eq_or ?_ ?_ hor
    · rintro header hheader rfl
      exact hfresh header hheader (hw l header hsign)
    · intro header hheader hlast
      exact hfresh header hheader (plural_mem_of_lastPlural hlast)
  · intro h l binder hsign
    obtain ⟨inner, hinner, rfl⟩ := sign_mem_enclose.mp hsign
    rw [lastPlural_enclose, h l inner hinner]

theorem any_isSign {ms : List Mark} :
    ms.any Mark.isSign = true ↔ ∃ l binder, .sign l binder ∈ ms := by
  rw [List.any_eq_true]
  constructor
  · rintro ⟨m, hm, his⟩
    cases m with
    | plural header => cases his
    | sign l binder => exact ⟨l, binder, hm⟩
  · rintro ⟨l, binder, hm⟩
    exact ⟨_, hm, rfl⟩

theorem any_isPlural {ms : List Mark} :
    ms.any Mark.isPlural = true ↔ ∃ header, .plural header ∈ ms := by
  rw [List.any_eq_true]
  constructor
  · rintro ⟨m, hm, his⟩
    cases m with
    | plural header => exact ⟨header, hm⟩
    | sign l binder => cases his
  · rintro ⟨header, hm⟩
    exact ⟨_, hm, rfl⟩

theorem any_isFree {ms : List Mark} : ms.any Mark.isFree = true ↔ ∃ l, .sign l none ∈ ms := by
  rw [List.any_eq_true]
  constructor
  · rintro ⟨m, hm, his⟩
    match m with
    | .plural header => cases his
    | .sign l none => exact ⟨l, hm⟩
    | .sign l (some header) => cases his
  · rintro ⟨l, hm⟩
    exact ⟨_, hm, rfl⟩

theorem leavesAlone_iff {first second : List Mark} :
    leavesAlone first second = true ↔
      (∀ l binder header, .sign l binder ∈ first → .plural header ∉ second) ∧
        (∀ l header, .plural header ∈ first → .sign l none ∉ second) := by
  simp only [leavesAlone, Bool.and_eq_true, Bool.not_eq_true', ← Bool.not_eq_true, any_isSign,
    any_isPlural, any_isFree]
  constructor
  · rintro ⟨hfirst, hsecond⟩
    exact ⟨fun l binder header hl hp => hfirst ⟨⟨l, binder, hl⟩, header, hp⟩,
      fun l header hp hl => hsecond ⟨⟨header, hp⟩, l, hl⟩⟩
  · rintro ⟨hfirst, hsecond⟩
    exact ⟨fun ⟨⟨l, binder, hl⟩, header, hp⟩ => hfirst l binder header hl hp,
      fun ⟨⟨header, hp⟩, l, hl⟩ => hsecond l header hp hl⟩

/-- Marks that leave each other's signs alone make a wording with its signs at the
last plural if both of them are such wordings. -/
theorem BoundLast.append {u v : List Mark} (hu : BoundLast u) (hv : BoundLast v)
    (hsigns : ∀ l binder header, .sign l binder ∈ u → .plural header ∉ v)
    (hplurals : ∀ l header, .plural header ∈ u → .sign l none ∉ v) : BoundLast (u ++ v) := by
  intro l binder hsign
  rw [lastPlural_append]
  rcases List.mem_append.mp hsign with hsign | hsign
  · cases hlast : lastPlural v with
    | none => exact hu l binder hsign
    | some header =>
        exact absurd (plural_mem_of_lastPlural hlast) (hsigns l binder header hsign)
  · have hbinder := hv l binder hsign
    cases hlast : lastPlural v with
    | some header => rw [hbinder, hlast, Option.some_or]
    | none =>
        rw [hbinder, hlast] at hsign
        rw [hbinder, hlast, Option.none_or]
        cases hfirst : lastPlural u with
        | none => rfl
        | some header =>
            exact absurd hsign (hplurals l header (plural_mem_of_lastPlural hfirst))

section Parts

variable {u v : List Mark} (h : BoundLast (u ++ v))

include h

/-- A sign that belonged to a plural behind its part would be inside that plural. -/
theorem BoundLast.lastPlural_eq_none (hu : Complete u)
    (hapart : ∀ header, .plural header ∈ u → .plural header ∉ v) {l : Location}
    {binder : Option PluralHeader} (hsign : .sign l binder ∈ u) : lastPlural v = none := by
  have hbinder := h l binder (List.mem_append_left _ hsign)
  rw [lastPlural_append] at hbinder
  cases hlast : lastPlural v with
  | none => rfl
  | some header =>
      rw [hlast, Option.some_or] at hbinder
      rw [hbinder] at hsign
      exact absurd (plural_mem_of_lastPlural hlast) (hapart header (hu l header hsign))

theorem BoundLast.left (hu : Complete u)
    (hapart : ∀ header, .plural header ∈ u → .plural header ∉ v) : BoundLast u := by
  intro l binder hsign
  have hbinder := h l binder (List.mem_append_left _ hsign)
  rwa [lastPlural_append, h.lastPlural_eq_none hu hapart hsign, Option.none_or] at hbinder

theorem BoundLast.right (hv : Complete v) : BoundLast v := by
  intro l binder hsign
  have hbinder := h l binder (List.mem_append_right _ hsign)
  rw [lastPlural_append] at hbinder
  cases hlast : lastPlural v with
  | some header => rwa [hlast, Option.some_or] at hbinder
  | none =>
      cases binder with
      | none => rfl
      | some header => exact absurd hlast (lastPlural_ne_none (hv l header hsign))

/-- No plural stands in front of a sign that no plural is around. -/
theorem BoundLast.lastPlural_left_eq_none {l : Location} (hsign : .sign l none ∈ v) :
    lastPlural u = none := by
  have hbinder := h l none (List.mem_append_right _ hsign)
  rw [lastPlural_append] at hbinder
  exact (Option.or_eq_none_iff.mp hbinder.symm).2

end Parts

/-- Every wording of an element in front of others has its signs at the last plural
if the same is true on both sides and they leave each other's signs alone. -/
theorem boundLast_cons {e : Element} {es : List Element} (he : e.Branching) (hes : Branching es)
    (hapart : ∀ header, .plural header ∈ e.marks → .plural header ∉ marks es) :
    (∀ w ∈ wordings (e :: es), BoundLast w) ↔
      (∀ u ∈ e.wordings, BoundLast u) ∧ leavesAlone e.marks (marks es) = true ∧
        ∀ v ∈ wordings es, BoundLast v := by
  have hdisjoint {u v : List Mark} (hu : u ∈ e.wordings) (hv : v ∈ wordings es) (header) :
      Mark.plural header ∈ u → Mark.plural header ∉ v :=
    fun hfirst hsecond => hapart header (Element.wordings_subset hu hfirst)
      (wordings_subset hv hsecond)
  constructor
  · intro h
    have hboth {u v : List Mark} (hu : u ∈ e.wordings) (hv : v ∈ wordings es) :
        BoundLast (u ++ v) :=
      h (u ++ v) (mem_wordings_cons.mpr ⟨u, hu, v, hv, rfl⟩)
    refine ⟨?_, leavesAlone_iff.mpr ⟨?_, ?_⟩, ?_⟩
    · intro u hu
      obtain ⟨v, hv⟩ := exists_wording hes
      exact (hboth hu hv).left (Element.complete_of_mem hu) (hdisjoint hu hv)
    · intro l binder header hsign hplural
      obtain ⟨u, hu, hsign⟩ := Element.exists_wording_of_mem he _ hsign
      obtain ⟨v, hv, hplural⟩ := exists_wording_of_mem hes _ hplural
      exact lastPlural_ne_none hplural
        ((hboth hu hv).lastPlural_eq_none (Element.complete_of_mem hu) (hdisjoint hu hv) hsign)
    · intro l header hplural hsign
      obtain ⟨u, hu, hplural⟩ := Element.exists_wording_of_mem he _ hplural
      obtain ⟨v, hv, hsign⟩ := exists_wording_of_mem hes _ hsign
      exact lastPlural_ne_none hplural ((hboth hu hv).lastPlural_left_eq_none hsign)
    · intro v hv
      obtain ⟨u, hu⟩ := Element.exists_wording he
      exact (hboth hu hv).right (complete_of_mem hv)
  · rintro ⟨hfirst, halone, hrest⟩ w hw
    obtain ⟨hsigns, hplurals⟩ := leavesAlone_iff.mp halone
    obtain ⟨u, hu, v, hv, rfl⟩ := mem_wordings_cons.mp hw
    apply (hfirst u hu).append (hrest v hv)
    · exact fun l binder header hsign hplural => hsigns l binder header
        (Element.wordings_subset hu hsign) (wordings_subset hv hplural)
    · exact fun l header hplural hsign => hplurals l header
        (Element.wordings_subset hu hplural) (wordings_subset hv hsign)

/-- Marks in different places. -/
def Distinct (ms : List Mark) : Prop := (ms.map Mark.location).Nodup

theorem Distinct.append {first second : List Mark} (h : Distinct (first ++ second)) :
    Distinct first ∧ Distinct second ∧
      ∀ header, .plural header ∈ first → .plural header ∉ second := by
  rw [Distinct, List.map_append, List.nodup_append'] at h
  exact ⟨h.1, h.2.1, fun header hfirst hsecond =>
    h.2.2 (List.mem_map_of_mem hfirst) (List.mem_map_of_mem hsecond)⟩

theorem Distinct.enclose {header? : Option PluralHeader} {ms : List Mark}
    (h : Distinct (enclose header? ms)) :
    Distinct ms ∧ ∀ header ∈ header?, .plural header ∉ ms := by
  rw [Distinct, location_enclose, List.nodup_append'] at h
  refine ⟨h.2.1, ?_⟩
  rintro header rfl hplural
  exact h.2.2 (List.mem_singleton_self _) (List.mem_map_of_mem hplural)

mutual

theorem Element.signsLast_iff :
    ∀ {e : Element}, e.Branching → Distinct e.marks →
      ((∀ w ∈ e.wordings, BoundLast w) ↔ e.signsLast = true)
  | .selector kind name branches location, h, hdistinct => by
      obtain ⟨hinner, hfresh⟩ := hdistinct.enclose
      have hiff := branchSignsLast_iff h.2 hinner
      simp only [Element.wordings, List.mem_map, Element.signsLast, ← hiff]
      constructor
      · intro hbound w hw
        exact (boundLast_enclose (complete_of_mem_branches hw) fun header hheader hplural =>
          hfresh header hheader (branchWordings_subset hw hplural)).mp (hbound _ ⟨w, hw, rfl⟩)
      · rintro hbound - ⟨w, hw, rfl⟩
        exact (boundLast_enclose (complete_of_mem_branches hw) fun header hheader hplural =>
          hfresh header hheader (branchWordings_subset hw hplural)).mpr (hbound w hw)
  | .tag _ children _, h, hdistinct =>
      MessagePattern.signsLast_iff (show Branching children from h) hdistinct
  | .pound _, _, _ => by simp [Element.wordings, Element.signsLast, BoundLast, lastPlural]
  | .literal _ _, _, _ => by simp [Element.wordings, Element.signsLast, BoundLast]
  | .argument _ _, _, _ => by simp [Element.wordings, Element.signsLast, BoundLast]
  | .number _ _ _, _, _ => by simp [Element.wordings, Element.signsLast, BoundLast]
  | .dateTime _ _ _ _, _, _ => by simp [Element.wordings, Element.signsLast, BoundLast]

/-- The rule for number signs decides whether in every wording they belong to the
last plural. -/
theorem signsLast_iff :
    ∀ {es : List Element}, Branching es → Distinct (marks es) →
      ((∀ w ∈ wordings es, BoundLast w) ↔ signsLast es = true)
  | [], _, _ => by simp [wordings, signsLast, BoundLast]
  | e :: es, h, hdistinct => by
      obtain ⟨hfirst, hrest, hapart⟩ := hdistinct.append
      rw [boundLast_cons h.1 h.2 hapart, Element.signsLast_iff h.1 hfirst,
        MessagePattern.signsLast_iff h.2 hrest, signsLast, Bool.and_eq_true, Bool.and_eq_true,
        and_assoc]

theorem branchSignsLast_iff :
    ∀ {branches : List (Branch Element)}, BranchesBranching branches →
      Distinct (branchMarks branches) →
      ((∀ w ∈ branchWordings branches, BoundLast w) ↔ branchSignsLast branches = true)
  | [], _, _ => by simp [branchWordings, branchSignsLast]
  | ⟨_, _, _⟩ :: _, h, hdistinct => by
      obtain ⟨hfirst, hrest, -⟩ := hdistinct.append
      rw [branchSignsLast, Bool.and_eq_true, ← MessagePattern.signsLast_iff h.1 hfirst,
        ← branchSignsLast_iff h.2 hrest, branchWordings, List.forall_mem_append]

end

end MessagePattern
