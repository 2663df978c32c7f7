/-
# What the comparison of two messages reports

Two messages are structurally the same if they have the same variables, and a
variable is a name together with the type of the elements that it names.  Where
the comparison fails it tells the first thing that is wrong: a name that the first
message uses with two types, or else one that the second does, or else that the
numbers of variables differ, or else the first variable of the first message that
the second does not have.

`Mismatch` says this of the elements of the two messages in document order, and
mentions neither tables nor the order in which they are filled.
-/

import Mathlib.Data.Finset.Card
import MessagePattern.Proofs.Comparison
import MessagePattern.Proofs.DocumentOrder
import MessagePattern.Proofs.Erasure

namespace MessagePattern

/-- What an element names, with the type of the element. -/
def Element.typedName? (e : Element) : Option (String × ElementType) := e.name?.map (·, e.type)

/-- The variables of a message: the names of all its elements, with their types. -/
def variableSet (elements : List Element) : Finset (String × ElementType) :=
  ((documentOrder true elements).filterMap Element.typedName?).toFinset

/-- The names of the variables in the order in which they are first seen. -/
def namesInOrder (elements : List Element) : List String :=
  ((documentOrder true elements).filterMap Element.name?).eraseDups

/-- No variable has two types. -/
def Consistent (elements : List Element) : Prop :=
  ∀ name type type', (name, type) ∈ variableSet elements →
    (name, type') ∈ variableSet elements → type = type'

/-- The first element whose name was seen before with another type has the name
and the later type; the earlier type is the one that was seen before. -/
def Clash (elements : List Element) (name : String) (earlier later : ElementType) : Prop :=
  ∃ before e after, documentOrder true elements = before ++ e :: after ∧
    Unambiguous (before.filterMap Element.typedName?) ∧
    (name, earlier) ∈ before.filterMap Element.typedName? ∧
    e.typedName? = some (name, later) ∧ earlier ≠ later

/-- Both messages are consistent, and they have equally many variables. -/
structure Comparable (a b : List Element) : Prop where
  left : Consistent a
  right : Consistent b
  card : (variableSet a).card = (variableSet b).card

/-- The second message has all variables of the first whose names were seen before
`name`. -/
def AgreeBefore (a b : List Element) (name : String) : Prop :=
  ∃ front back, namesInOrder a = front ++ name :: back ∧
    ∀ earlier ∈ front, ∀ type, (earlier, type) ∈ variableSet a → (earlier, type) ∈ variableSet b

/-- What there is to report about two messages. -/
inductive Mismatch (a b : List Element) : StructuralMismatch → Prop
  | first {name : String} {earlier later : ElementType} (clash : Clash a name earlier later) :
      Mismatch a b (.conflictingTypes name earlier later)
  | second {name : String} {earlier later : ElementType} (consistent : Consistent a)
      (clash : Clash b name earlier later) : Mismatch a b (.conflictingTypes name earlier later)
  | count (left : Consistent a) (right : Consistent b)
      (card : (variableSet a).card ≠ (variableSet b).card) :
      Mismatch a b (.variableCount (namesInOrder a) (namesInOrder b))
  | missing {name : String} (comparable : Comparable a b) (agree : AgreeBefore a b name)
      (absent : ∀ type, (name, type) ∉ variableSet b) : Mismatch a b (.missingVariable name)
  | retyped {name : String} {here there : ElementType} (comparable : Comparable a b)
      (agree : AgreeBefore a b name) (left : (name, here) ∈ variableSet a)
      (right : (name, there) ∈ variableSet b) (differ : here ≠ there) :
      Mismatch a b (.conflictingTypes name here there)

/-! ## The occurrences of names, in document order -/

mutual

theorem Element.typedNames_eq_filterMap :
    ∀ e : Element, e.typedNames = (e.documentOrder true).filterMap Element.typedName?
  | .selector (.plural _ _) name branches _ =>
      congrArg (List.cons (name, ElementType.plural)) (typedNamesBranches_eq_filterMap branches)
  | .selector .select name branches _ =>
      congrArg (List.cons (name, ElementType.select)) (typedNamesBranches_eq_filterMap branches)
  | .tag name children _ =>
      congrArg (List.cons (name, ElementType.tag)) (typedNames_eq_filterMap children)
  | .dateTime .date _ _ _ => rfl
  | .dateTime .time _ _ _ => rfl
  | .literal _ _ => rfl
  | .argument _ _ => rfl
  | .number _ _ _ => rfl
  | .pound _ => rfl

/-- The occurrences of names that are compared are those of all elements. -/
theorem typedNames_eq_filterMap :
    ∀ es : List Element, typedNames es = (documentOrder true es).filterMap Element.typedName?
  | [] => rfl
  | e :: es => by
      rw [typedNames, documentOrder, List.filterMap_append, Element.typedNames_eq_filterMap e,
        typedNames_eq_filterMap es]

theorem typedNamesBranches_eq_filterMap : ∀ branches : List (Branch Element),
    typedNamesBranches branches =
      (documentOrderBranches true branches).filterMap Element.typedName?
  | [] => rfl
  | ⟨_, value, _⟩ :: branches => by
      rw [typedNamesBranches, documentOrderBranches, List.filterMap_append,
        typedNames_eq_filterMap value, typedNamesBranches_eq_filterMap branches]

end

theorem mem_variableSet {elements : List Element} {p : String × ElementType} :
    p ∈ variableSet elements ↔ p ∈ typedNames elements := by
  rw [variableSet, List.mem_toFinset, typedNames_eq_filterMap]

theorem consistent_iff {elements : List Element} :
    Consistent elements ↔ Unambiguous (typedNames elements) := by
  simp only [Consistent, mem_variableSet, Unambiguous]

theorem namesInOrder_eq (elements : List Element) :
    namesInOrder elements = ((typedNames elements).map Prod.fst).eraseDups := by
  have hnames : (fun e : Element => e.typedName?.map Prod.fst) = Element.name? := by
    funext e
    simp [Element.typedName?, Function.comp_def]
  rw [namesInOrder, typedNames_eq_filterMap, List.map_filterMap, hnames]

/-- A clash of elements is one of occurrences. -/
theorem clash_iff {elements : List Element} {name : String} {earlier later : ElementType} :
    Clash elements name earlier later ↔
      ∃ before after, typedNames elements = before ++ (name, later) :: after ∧
        Unambiguous before ∧ (name, earlier) ∈ before ∧ earlier ≠ later := by
  constructor
  · rintro ⟨before, e, after, horder, hone, hearlier, he, hne⟩
    refine ⟨before.filterMap Element.typedName?, after.filterMap Element.typedName?, ?_, hone,
      hearlier, hne⟩
    rw [typedNames_eq_filterMap, horder, List.filterMap_append, List.filterMap_cons_some he]
  · rintro ⟨before, after, horder, hone, hearlier, hne⟩
    rw [typedNames_eq_filterMap] at horder
    obtain ⟨front, back, hsplit, rfl, hback⟩ := List.filterMap_eq_append_iff.mp horder
    obtain ⟨unnamed, e, rest, rfl, hunnamed, he, -⟩ := List.filterMap_eq_cons_iff.mp hback
    -- The elements between the last name in front and this one have no names.
    have hfront : (front ++ unnamed).filterMap Element.typedName? =
        front.filterMap Element.typedName? := by
      rw [List.filterMap_append, List.filterMap_eq_nil_iff.mpr hunnamed, List.append_nil]
    refine ⟨front ++ unnamed, e, rest, ?_, ?_, ?_, he, hne⟩
    · rw [hsplit, List.append_assoc]
    · rwa [hfront]
    · rwa [hfront]

/-! ## Tables of variables -/

namespace Variables

section Tables

variable {vars : Variables} {seen occurrences : List (String × ElementType)}

theorem record_eq_error_iff (h : vars.Lists seen) {name : String} {type : ElementType}
    {mismatch : StructuralMismatch} :
    vars.record (name, type) = .error mismatch ↔ ∃ known, (name, known) ∈ seen ∧ known ≠ type ∧
      mismatch = .conflictingTypes name known type := by
  constructor
  · intro hrecord
    rcases vars.record_cases name type with ⟨-, hok⟩ | ⟨-, hok⟩ | ⟨known, hne, hknown, herror⟩
    · cases hok.symm.trans hrecord
    · cases hok.symm.trans hrecord
    · cases herror.symm.trans hrecord
      exact ⟨known, (h.same _).mp ((lookup_eq_some_iff h.once).mp hknown), hne, rfl⟩
  · rintro ⟨known, hmem, hne, rfl⟩
    have hknown := (lookup_eq_some_iff h.once).mpr ((h.same _).mpr hmem)
    simp [record, hknown, hne]

/-- A table cannot be filled exactly if a name comes with another type than the
one that it had before. -/
theorem foldlM_record_eq_error_iff {mismatch : StructuralMismatch} :
    occurrences.foldlM record [] = .error mismatch ↔
      ∃ before name later after earlier, occurrences = before ++ (name, later) :: after ∧
        Unambiguous before ∧ (name, earlier) ∈ before ∧ earlier ≠ later ∧
        mismatch = .conflictingTypes name earlier later := by
  rw [foldlM_eq_error_iff]
  constructor
  · rintro ⟨before, ⟨name, later⟩, after, vars, rfl, hbefore, hrecord⟩
    have hlists : vars.Lists before := lists_nil.foldlM hbefore
    obtain ⟨earlier, hmem, hne, rfl⟩ := (record_eq_error_iff hlists).mp hrecord
    exact ⟨before, name, later, after, earlier, rfl, hlists.unambiguous, hmem, hne, rfl⟩
  · rintro ⟨before, name, later, after, earlier, rfl, hone, hmem, hne, rfl⟩
    obtain ⟨vars, hbefore⟩ := lists_nil.exists_foldlM hone
    have hlists : vars.Lists before := lists_nil.foldlM hbefore
    exact ⟨before, (name, later), after, vars, rfl, hbefore,
      (record_eq_error_iff hlists).mpr ⟨earlier, hmem, hne, rfl⟩⟩

theorem eraseDups_concat (names : List String) (name : String) :
    (names ++ [name]).eraseDups =
      if name ∈ names.eraseDups then names.eraseDups else names.eraseDups ++ [name] := by
  rw [List.eraseDups_append]
  simp only [List.mem_eraseDups]
  split
  · next hmem => simp [List.removeAll, hmem]
  · next hmem => simp [List.removeAll, hmem, List.eraseDups_cons]

/-- The names in a table that was filled are in the order in which they came. -/
theorem names_of_foldlM {vars' : Variables} (h : vars.map Prod.fst = (seen.map Prod.fst).eraseDups)
    (hfill : occurrences.foldlM record vars = .ok vars') :
    vars'.map Prod.fst = ((seen ++ occurrences).map Prod.fst).eraseDups := by
  induction occurrences generalizing vars seen with
  | nil =>
      cases hfill
      rw [List.append_nil, h]
  | cons p occurrences ih =>
      obtain ⟨name, type⟩ := p
      rw [List.foldlM_cons] at hfill
      obtain ⟨next, hnext, hrest⟩ := bind_eq_ok hfill
      have hstep : next.map Prod.fst = ((seen ++ [(name, type)]).map Prod.fst).eraseDups := by
        rw [List.map_append, List.map_singleton, eraseDups_concat, ← h]
        rcases vars.record_cases name type with ⟨hnew, hok⟩ | ⟨hknown, hok⟩ | ⟨known, -, -, herror⟩
        · cases hok.symm.trans hnext
          rw [if_neg hnew, List.map_append, List.map_singleton]
        · cases hok.symm.trans hnext
          rw [if_pos]
          obtain ⟨before, after, rfl, -⟩ := List.lookup_eq_some_iff.mp hknown
          simp
        · cases herror.symm.trans hnext
      have hall := ih hstep hrest
      rwa [List.append_assoc, List.singleton_append] at hall

/-- A variable fails the check against a table if its name is not there, or there
with another type. -/
theorem check_eq_error_iff (h : (vars.map Prod.fst).Nodup) {name : String} {type : ElementType}
    {mismatch : StructuralMismatch} :
    vars.check (name, type) = .error mismatch ↔
      ((∀ other, (name, other) ∉ vars) ∧ mismatch = .missingVariable name) ∨
      ∃ other, (name, other) ∈ vars ∧ type ≠ other ∧
        mismatch = .conflictingTypes name type other := by
  simp only [← lookup_eq_some_iff h, check]
  cases vars.lookup name with
  | none => simp [eq_comm]
  | some other =>
      by_cases hsame : type = other
      · simp [hsame]
      · simp [hsame, eq_comm]

end Tables

/-- The table has exactly the variables of the message, in the order in which
their names are first seen. -/
structure IsTableOf (vars : Variables) (elements : List Element) : Prop where
  once : (vars.map Prod.fst).Nodup
  mem : ∀ p, p ∈ vars ↔ p ∈ variableSet elements
  names : vars.map Prod.fst = namesInOrder elements

theorem isTableOf_of_ofElements {elements : List Element} {vars : Variables}
    (h : ofElements elements = .ok vars) : vars.IsTableOf elements where
  once := (lists_of_ofElements h).once
  mem p := by rw [(lists_of_ofElements h).same, mem_variableSet]
  names := by
    have hempty : ([] : Variables).map Prod.fst =
        (([] : List (String × ElementType)).map Prod.fst).eraseDups := rfl
    rw [namesInOrder_eq]
    exact names_of_foldlM hempty h

theorem IsTableOf.card_eq {elements : List Element} {vars : Variables}
    (h : vars.IsTableOf elements) : (variableSet elements).card = vars.length := by
  have hsame : variableSet elements = vars.toFinset := by
    ext p
    rw [← h.mem, List.mem_toFinset]
  rw [hsame, List.toFinset_card_of_nodup (.of_map _ h.once)]

theorem IsTableOf.consistent {elements : List Element} {vars : Variables}
    (h : vars.IsTableOf elements) : Consistent elements := by
  intro name type type' hmem hmem'
  rw [← h.mem, ← lookup_eq_some_iff h.once] at hmem hmem'
  exact Option.some.inj (hmem.symm.trans hmem')

theorem exists_table {elements : List Element} (h : Consistent elements) :
    ∃ vars, ofElements elements = .ok vars ∧ vars.IsTableOf elements := by
  obtain ⟨vars, hvars⟩ := exists_ofElements_iff.mpr (consistent_iff.mp h)
  exact ⟨vars, hvars, isTableOf_of_ofElements hvars⟩

theorem ofElements_eq_error_iff {elements : List Element} {mismatch : StructuralMismatch} :
    ofElements elements = .error mismatch ↔ ∃ name earlier later,
      Clash elements name earlier later ∧ mismatch = .conflictingTypes name earlier later := by
  simp only [ofElements, foldlM_record_eq_error_iff, clash_iff]
  constructor
  · rintro ⟨before, name, later, after, earlier, horder, hone, hmem, hne, rfl⟩
    exact ⟨name, earlier, later, ⟨before, after, horder, hone, hmem, hne⟩, rfl⟩
  · rintro ⟨name, earlier, later, ⟨before, after, horder, hone, hmem, hne⟩, rfl⟩
    exact ⟨before, name, later, after, earlier, horder, hone, hmem, hne, rfl⟩

/-- Looking up one table in another fails at the first name on which the messages
do not agree. -/
theorem IsTableOf.forM_check_eq_error_iff {a b : List Element} {left right : Variables}
    (ha : left.IsTableOf a) (hb : right.IsTableOf b) {mismatch : StructuralMismatch} :
    left.forM right.check = .error mismatch ↔ ∃ name, AgreeBefore a b name ∧
      (((∀ type, (name, type) ∉ variableSet b) ∧ mismatch = .missingVariable name) ∨
        ∃ here there, (name, here) ∈ variableSet a ∧ (name, there) ∈ variableSet b ∧
          here ≠ there ∧ mismatch = .conflictingTypes name here there) := by
  have hconsistent := ha.consistent
  rw [forM_eq_error_iff]
  constructor
  · rintro ⟨front, ⟨name, here⟩, back, rfl, hfront, hcheck⟩
    refine ⟨name, ⟨front.map Prod.fst, back.map Prod.fst, ?_, ?_⟩, ?_⟩
    · rw [← ha.names, List.map_append, List.map_cons]
    · intro earlier hearlier type htype
      obtain ⟨p, hp, rfl⟩ := List.mem_map.mp hearlier
      have hmem : p ∈ variableSet a := (ha.mem p).mp (List.mem_append_left _ hp)
      rw [hconsistent _ _ _ htype hmem, ← hb.mem]
      exact (check_eq_ok_iff hb.once p).mp (hfront p hp)
    · have hhere : (name, here) ∈ variableSet a := (ha.mem _).mp (by simp)
      simp only [← hb.mem]
      rcases (check_eq_error_iff hb.once).mp hcheck with hmissing | ⟨there, hthere, hne, hmade⟩
      · exact .inl hmissing
      · exact .inr ⟨here, there, hhere, hthere, hne, hmade⟩
  · rintro ⟨name, ⟨before, after, horder, hagree⟩, hreport⟩
    rw [← ha.names] at horder
    obtain ⟨front, rest, rfl, rfl, hrest⟩ := List.map_eq_append_iff.mp horder
    obtain ⟨⟨name, type⟩, back, rfl, rfl, rfl⟩ := List.map_eq_cons_iff.mp hrest
    have htype : (name, type) ∈ variableSet a := (ha.mem _).mp (by simp)
    refine ⟨front, (name, type), back, rfl, fun p hp => ?_, ?_⟩
    · rw [check_eq_ok_iff hb.once, hb.mem]
      exact hagree p.1 (List.mem_map.mpr ⟨p, hp, rfl⟩) p.2
        ((ha.mem p).mp (List.mem_append_left _ hp))
    · rw [check_eq_error_iff hb.once]
      simp only [← hb.mem] at hreport
      rcases hreport with hmissing | ⟨here, there, hhere, hthere, hne, hmade⟩
      · exact .inl hmissing
      · rw [hconsistent _ _ _ hhere htype] at hne hmade
        exact .inr ⟨there, hthere, hne, hmade⟩

end Variables

/-! ## The comparison -/

theorem structurallySame_eq_error_iff {a b : List Element} {mismatch : StructuralMismatch} :
    structurallySame a b = .error mismatch ↔
      Variables.ofElements a = .error mismatch ∨
      ∃ left, Variables.ofElements a = .ok left ∧
        (Variables.ofElements b = .error mismatch ∨
        ∃ right, Variables.ofElements b = .ok right ∧
          (left.length ≠ right.length ∧
              mismatch = .variableCount (left.map Prod.fst) (right.map Prod.fst) ∨
            left.length = right.length ∧ left.forM right.check = .error mismatch)) := by
  simp only [structurallySame, bind_eq_error_iff]
  refine or_congr_right (exists_congr fun left => and_congr_right fun _ =>
    or_congr_right (exists_congr fun right => and_congr_right fun _ => ?_))
  split
  · next hne => simp [hne, eq_comm]
  · next heq => simp [Classical.not_not.mp heq]

/-- Of messages that can be compared name by name, the first difference is
reported. -/
theorem Comparable.structurallySame_eq_error_iff {a b : List Element} (h : Comparable a b)
    {mismatch : StructuralMismatch} :
    structurallySame a b = .error mismatch ↔ ∃ name, AgreeBefore a b name ∧
      (((∀ type, (name, type) ∉ variableSet b) ∧ mismatch = .missingVariable name) ∨
        ∃ here there, (name, here) ∈ variableSet a ∧ (name, there) ∈ variableSet b ∧
          here ≠ there ∧ mismatch = .conflictingTypes name here there) := by
  obtain ⟨left, hleft, ha⟩ := Variables.exists_table h.left
  obtain ⟨right, hright, hb⟩ := Variables.exists_table h.right
  have hlength : left.length = right.length := by rw [← ha.card_eq, ← hb.card_eq, h.card]
  rw [← ha.forM_check_eq_error_iff hb, MessagePattern.structurallySame_eq_error_iff]
  simp [hleft, hright, hlength]

/-- The comparison reports what there is to report. -/
theorem structurallySame_eq_error_iff_mismatch {a b : List Element}
    {mismatch : StructuralMismatch} :
    structurallySame a b = .error mismatch ↔ Mismatch a b mismatch := by
  constructor
  · intro h
    rcases structurallySame_eq_error_iff.mp h with ha | ⟨left, hleft, hb | ⟨right, hright, hboth⟩⟩
    · obtain ⟨name, earlier, later, hclash, rfl⟩ := Variables.ofElements_eq_error_iff.mp ha
      exact .first hclash
    · obtain ⟨name, earlier, later, hclash, rfl⟩ := Variables.ofElements_eq_error_iff.mp hb
      exact .second (Variables.isTableOf_of_ofElements hleft).consistent hclash
    · have ha := Variables.isTableOf_of_ofElements hleft
      have hb := Variables.isTableOf_of_ofElements hright
      rcases hboth with ⟨hlength, rfl⟩ | ⟨hlength, -⟩
      · rw [ha.names, hb.names]
        refine .count ha.consistent hb.consistent ?_
        rwa [ha.card_eq, hb.card_eq]
      · have hcomparable : Comparable a b :=
          ⟨ha.consistent, hb.consistent, by rw [ha.card_eq, hb.card_eq, hlength]⟩
        obtain ⟨name, hagree, ⟨habsent, rfl⟩ | ⟨here, there, hhere, hthere, hne, rfl⟩⟩ :=
          hcomparable.structurallySame_eq_error_iff.mp h
        · exact .missing hcomparable hagree habsent
        · exact .retyped hcomparable hagree hhere hthere hne
  · intro h
    cases h with
    | first clash =>
        refine structurallySame_eq_error_iff.mpr (.inl ?_)
        exact Variables.ofElements_eq_error_iff.mpr ⟨_, _, _, clash, rfl⟩
    | second consistent clash =>
        obtain ⟨left, hleft, -⟩ := Variables.exists_table consistent
        refine structurallySame_eq_error_iff.mpr (.inr ⟨left, hleft, .inl ?_⟩)
        exact Variables.ofElements_eq_error_iff.mpr ⟨_, _, _, clash, rfl⟩
    | count consistent consistent' card =>
        obtain ⟨left, hleft, ha⟩ := Variables.exists_table consistent
        obtain ⟨right, hright, hb⟩ := Variables.exists_table consistent'
        rw [ha.card_eq, hb.card_eq] at card
        rw [← ha.names, ← hb.names]
        exact structurallySame_eq_error_iff.mpr
          (.inr ⟨left, hleft, .inr ⟨right, hright, .inl ⟨card, rfl⟩⟩⟩)
    | missing comparable agree absent =>
        exact comparable.structurallySame_eq_error_iff.mpr ⟨_, agree, .inl ⟨absent, rfl⟩⟩
    | retyped comparable agree left right differ =>
        exact comparable.structurallySame_eq_error_iff.mpr
          ⟨_, agree, .inr ⟨_, _, left, right, differ, rfl⟩⟩

/-- The comparison succeeds exactly if neither message uses a name with two types
and they have the same variables; what it reports otherwise is the first mismatch.
So to be structurally the same is symmetric and transitive. -/
theorem structurallySame_decides (a b : List Element) :
    (structurallySame a b = .ok () ↔
      Consistent a ∧ Consistent b ∧ variableSet a = variableSet b) ∧
    (∀ mismatch, structurallySame a b = .error mismatch ↔ Mismatch a b mismatch) ∧
    (structurallySame a b = .ok () → structurallySame b a = .ok ()) ∧
    ∀ c, structurallySame a b = .ok () → structurallySame b c = .ok () →
      structurallySame a c = .ok () := by
  have hok : ∀ a b, structurallySame a b = .ok () ↔
      Consistent a ∧ Consistent b ∧ variableSet a = variableSet b := by
    intro a b
    rw [structurallySame_eq_ok_iff, consistent_iff, consistent_iff, Finset.ext_iff]
    simp only [mem_variableSet]
  refine ⟨hok a b, fun _ => structurallySame_eq_error_iff_mismatch, ?_, ?_⟩
  · simp only [hok]
    rintro ⟨ha, hb, hsame⟩
    exact ⟨hb, ha, hsame.symm⟩
  · simp only [hok]
    rintro c ⟨ha, -, hsame⟩ ⟨-, hc, hsame'⟩
    exact ⟨ha, hc, hsame.trans hsame'⟩

/-- A tag counts as a variable, and a name in a branch is seen behind that of its
selector: of the names that are missing, `n` comes first.  Messages that say the
same names in another order, or more often, are the same. -/
theorem structurallySame_decides_tags :
    Mismatch
        [.tag "b" [.selector .select "n" [⟨"a", [.argument "x" .blank], .blank⟩] .blank] .blank]
        [.tag "b" [.argument "y" .blank, .argument "z" .blank] .blank]
        (.missingVariable "n") ∧
      structurallySame [.argument "x" .blank, .tag "b" [] .blank]
        [.tag "b" [.argument "x" .blank] .blank] = .ok () ∧
      structurallySame [.tag "b" [.argument "x" .blank] .blank]
        [.tag "b" [.tag "b" [] .blank] .blank, .argument "x" .blank] = .ok () := by
  have hsame : structurallySame [.tag "b" [.argument "x" .blank] .blank]
      [.argument "x" .blank, .tag "b" [] .blank] = .ok () := rfl
  have hmore : structurallySame [.argument "x" .blank, .tag "b" [] .blank]
      [.tag "b" [.tag "b" [] .blank] .blank, .argument "x" .blank] = .ok () := rfl
  refine ⟨((structurallySame_decides _ _).2.1 _).mp rfl, ?_, ?_⟩
  · exact (structurallySame_decides _ _).2.2.1 hsame
  · exact (structurallySame_decides _ _).2.2.2 _ hsame hmore

end MessagePattern
