/-
# When two messages have the same variables

The comparison of two messages fills a table of variables for each of them,
counts the entries and looks up one table in the other.  A table lists every
occurrence of a name once, and it can be filled if no name occurs with two types.
So what is decided in the end is whether the two messages have the same
occurrences: of two tables with equally many names, one that is contained in the
other is equal to it.

Which fault is reported when the comparison fails is not considered here.
-/

import Mathlib.Data.List.Nodup
import Mathlib.Data.List.Perm.Subperm
import MessagePattern.Proofs.Outcome
import MessagePattern.Variables

namespace MessagePattern

/-- No name occurs with two types. -/
def Unambiguous (occurrences : List (String × ElementType)) : Prop :=
  ∀ name type type', (name, type) ∈ occurrences → (name, type') ∈ occurrences → type = type'

theorem unambiguous_congr {first second : List (String × ElementType)}
    (h : ∀ p, p ∈ first ↔ p ∈ second) : Unambiguous first ↔ Unambiguous second := by
  simp only [Unambiguous, h]

namespace Variables

/-- The table holds these occurrences and no others, every name once. -/
structure Lists (vars : Variables) (occurrences : List (String × ElementType)) : Prop where
  once : (vars.map Prod.fst).Nodup
  same : ∀ p, p ∈ vars ↔ p ∈ occurrences

section Tables

variable {vars vars' : Variables} {seen occurrences : List (String × ElementType)}
  {name : String} {type : ElementType}

/-- Where names are listed once, looking one up finds its entry. -/
theorem lookup_eq_some_iff (h : (vars.map Prod.fst).Nodup) :
    vars.lookup name = some type ↔ (name, type) ∈ vars := by
  constructor
  · intro hfound
    obtain ⟨before, after, rfl, -⟩ := List.lookup_eq_some_iff.mp hfound
    simp
  · intro hmem
    obtain ⟨before, after, rfl⟩ := List.append_of_mem hmem
    refine List.lookup_eq_some_iff.mpr ⟨before, after, rfl, fun p hp => ?_⟩
    rw [List.map_append, List.map_cons, List.nodup_middle, List.nodup_cons] at h
    have hname : name ≠ p.1 := by
      rintro rfl
      exact h.1 (List.mem_append_left _ (List.mem_map.mpr ⟨p, hp, rfl⟩))
    simpa using hname

/-- Entering an occurrence adds a new name, or finds the name with the same type,
or fails at a name that has another one. -/
theorem record_cases (vars : Variables) (name : String) (type : ElementType) :
    (name ∉ vars.map Prod.fst ∧ vars.record (name, type) = .ok (vars ++ [(name, type)])) ∨
      (vars.lookup name = some type ∧ vars.record (name, type) = .ok vars) ∨
      ∃ known, known ≠ type ∧ vars.lookup name = some known ∧
        vars.record (name, type) = .error (.conflictingTypes name known type) := by
  cases hlookup : vars.lookup name with
  | none =>
      refine .inl ⟨?_, by simp [record, hlookup]⟩
      intro hmem
      obtain ⟨p, hp, rfl⟩ := List.mem_map.mp hmem
      simpa using List.lookup_eq_none_iff.mp hlookup p hp
  | some known =>
      by_cases hsame : known = type
      · subst hsame
        exact .inr (.inl ⟨rfl, by simp [record, hlookup]⟩)
      · exact .inr (.inr ⟨known, hsame, rfl, by simp [record, hlookup, hsame]⟩)

theorem Lists.record (h : vars.Lists seen) (hrecord : vars.record (name, type) = .ok vars') :
    vars'.Lists (seen ++ [(name, type)]) := by
  rcases vars.record_cases name type with
    ⟨hnew, hok⟩ | ⟨hknown, hok⟩ | ⟨known, -, -, herror⟩
  · cases hok.symm.trans hrecord
    refine ⟨?_, fun p => by simp [h.same]⟩
    rw [List.map_append, List.map_cons, List.map_nil, ← List.concat_eq_append]
    exact List.Nodup.concat hnew h.once
  · cases hok.symm.trans hrecord
    refine ⟨h.once, fun p => ?_⟩
    have hmem := (lookup_eq_some_iff h.once).mp hknown
    rw [List.mem_append, List.mem_singleton, ← h.same, or_iff_left_of_imp]
    rintro rfl
    exact hmem
  · cases herror.symm.trans hrecord

/-- A table that was filled holds what was entered. -/
theorem Lists.foldlM (h : vars.Lists seen)
    (hfill : occurrences.foldlM Variables.record vars = .ok vars') :
    vars'.Lists (seen ++ occurrences) := by
  induction occurrences generalizing vars seen with
  | nil =>
      cases hfill
      rwa [List.append_nil]
  | cons p occurrences ih =>
      rw [List.foldlM_cons] at hfill
      obtain ⟨next, hnext, hrest⟩ := bind_eq_ok hfill
      have hall := ih (h.record hnext) hrest
      rwa [List.append_assoc, List.singleton_append] at hall

/-- A table can be filled as long as no name has two types. -/
theorem Lists.exists_foldlM (h : vars.Lists seen) (hone : Unambiguous (seen ++ occurrences)) :
    ∃ vars', occurrences.foldlM Variables.record vars = .ok vars' := by
  induction occurrences generalizing vars seen with
  | nil => exact ⟨vars, rfl⟩
  | cons p occurrences ih =>
      obtain ⟨name, type⟩ := p
      have hnext : ∃ next, vars.record (name, type) = .ok next := by
        rcases vars.record_cases name type with
          ⟨-, hok⟩ | ⟨-, hok⟩ | ⟨known, hother, hknown, -⟩
        · exact ⟨_, hok⟩
        · exact ⟨_, hok⟩
        · have hmem := (h.same _).mp ((lookup_eq_some_iff h.once).mp hknown)
          exact absurd (hone name known type (List.mem_append_left _ hmem) (by simp)) hother
      obtain ⟨next, hnext⟩ := hnext
      have hone' : Unambiguous ((seen ++ [(name, type)]) ++ occurrences) := by
        rwa [List.append_assoc, List.singleton_append]
      obtain ⟨vars', hrest⟩ := ih (h.record hnext) hone'
      exact ⟨vars', by rw [List.foldlM_cons, hnext]; exact hrest⟩

theorem lists_nil : Lists [] [] := ⟨List.nodup_nil, fun _ => Iff.rfl⟩

theorem Lists.unambiguous (h : vars.Lists occurrences) : Unambiguous occurrences := by
  intro name type type' hmem hmem'
  rw [← h.same, ← lookup_eq_some_iff h.once] at hmem hmem'
  exact Option.some.inj (hmem.symm.trans hmem')

/-- Two tables of the same size have the same entries if one is contained in the
other. -/
theorem Lists.subset_iff {left right : Variables} {first second : List (String × ElementType)}
    (hleft : left.Lists first) (hright : right.Lists second)
    (hlength : left.length = right.length) :
    (∀ p ∈ left, p ∈ right) ↔ ∀ p, p ∈ first ↔ p ∈ second := by
  constructor
  · intro hsubset p
    have hsubperm := List.subperm_of_subset (List.Nodup.of_map _ hleft.once) hsubset
    have hperm := hsubperm.perm_of_length_le (Nat.le_of_eq hlength.symm)
    rw [← hleft.same, ← hright.same, hperm.mem_iff]
  · intro hsame p hp
    rwa [hright.same, ← hsame, ← hleft.same]

/-- Tables with the same entries have the same size. -/
theorem Lists.length_eq {left right : Variables} {first second : List (String × ElementType)}
    (hleft : left.Lists first) (hright : right.Lists second) (h : ∀ p, p ∈ first ↔ p ∈ second) :
    left.length = right.length := by
  have hperm : left.Perm right := by
    rw [List.perm_ext_iff_of_nodup (List.Nodup.of_map _ hleft.once)
      (List.Nodup.of_map _ hright.once)]
    intro p
    rw [hleft.same, hright.same, h]
  exact hperm.length_eq

/-- A variable passes the check against a table that has it. -/
theorem check_eq_ok_iff (h : (vars.map Prod.fst).Nodup) (p : String × ElementType) :
    vars.check p = .ok () ↔ p ∈ vars := by
  rw [← lookup_eq_some_iff h, check]
  cases vars.lookup p.1 with
  | none => simp
  | some type => simp [eq_comm]

end Tables

/-- The variables of a message are listed. -/
theorem lists_of_ofElements {elements : List Element} {vars : Variables}
    (h : ofElements elements = .ok vars) : vars.Lists (typedNames elements) :=
  lists_nil.foldlM h

/-- A message has a table of variables if no name in it has two types. -/
theorem exists_ofElements_iff {elements : List Element} :
    (∃ vars, ofElements elements = .ok vars) ↔ Unambiguous (typedNames elements) :=
  ⟨fun ⟨_, h⟩ => (lists_of_ofElements h).unambiguous, fun h => lists_nil.exists_foldlM h⟩

end Variables

/-- Two messages are structurally the same exactly if no name has two types in
either of them and they have the same occurrences of names with types. -/
theorem structurallySame_eq_ok_iff {a b : List Element} :
    structurallySame a b = .ok () ↔
      Unambiguous (typedNames a) ∧ Unambiguous (typedNames b) ∧
        ∀ p, p ∈ typedNames a ↔ p ∈ typedNames b := by
  constructor
  · intro h
    obtain ⟨left, hleft, h⟩ := bind_eq_ok h
    obtain ⟨right, hright, h⟩ := bind_eq_ok h
    have hleft := Variables.lists_of_ofElements hleft
    have hright := Variables.lists_of_ofElements hright
    split at h
    · cases h
    · next hlength =>
        refine ⟨hleft.unambiguous, hright.unambiguous, ?_⟩
        rw [← hleft.subset_iff hright (Classical.not_not.mp hlength)]
        intro p hp
        exact (Variables.check_eq_ok_iff hright.once p).mp (forM_eq_ok_iff.mp h p hp)
  · rintro ⟨ha, hb, hsame⟩
    obtain ⟨left, hleft⟩ := Variables.exists_ofElements_iff.mpr ha
    obtain ⟨right, hright⟩ := Variables.exists_ofElements_iff.mpr hb
    have hlists := Variables.lists_of_ofElements hleft
    have hlists' := Variables.lists_of_ofElements hright
    have hlength := hlists.length_eq hlists' hsame
    simp only [structurallySame, hleft, hright, bind, Except.bind, hlength, ne_eq,
      not_true_eq_false, if_false]
    refine forM_eq_ok_iff.mpr fun p hp => ?_
    rw [Variables.check_eq_ok_iff hlists'.once]
    exact (hlists.subset_iff hlists' hlength).mpr hsame p hp

end MessagePattern
