/-
# Runs of field letters

A letter of a pattern is active if an even number of apostrophes stands before it.
`activeMarks` says this position by position, so neither the pairing of apostrophes nor
the order of reading enters into it, and `activeRuns` groups neighbouring equal letters.

Reading takes two apostrophes in a row in one step and the scalars of quoted text one at
a time; both leave an even number where they should, so the fields are the active runs,
each cut to the greatest width of its letter, and no active letter is lost.
-/

import Mathlib.Algebra.Ring.Parity
import Mathlib.Data.List.Forall2
import Mathlib.Data.List.ReduceOption
import Mathlib.Data.List.SplitBy
import MessagePattern.Skeleton.DateTime

namespace MessagePattern

namespace DateTimeSkeleton

/-! ## Active letters -/

/-- For each scalar of a text the field letter that it is, if an even number of apostrophes
stands before it. -/
def activeMarks (text : List Char) : List (Option Char) :=
  text.mapIdx fun i c => if Even ((text.take i).count '\'') then fieldLetter? c else none

/-- The active letters of a text. -/
def activeLetters (text : List Char) : List Char := (activeMarks text).reduceOption

/-- The letter of a group of equal marks with the length of the group. -/
def runOfGroup (group : List (Option Char)) : Option (Char × Nat) :=
  group.head?.join.map fun letter => (letter, group.length)

/-- The longest runs of equal active letters next to each other, with their lengths. -/
def activeRuns (text : List Char) : List (Char × Nat) :=
  ((activeMarks text).splitBy (· == ·)).filterMap runOfGroup

/-- The active letters of a text that goes on inside quoted text or outside of it. -/
def marksFrom : (quoted : Bool) → List Char → List (Option Char)
  | _, [] => []
  | quoted, c :: text =>
    (if quoted then none else fieldLetter? c) :: marksFrom (quoted ^^ c == '\'') text

theorem marksFrom_eq_mapIdx (quoted : Bool) (text : List Char) :
    marksFrom quoted text = text.mapIdx fun i c =>
      if Even ((text.take i).count '\'') ↔ quoted = false then fieldLetter? c else none := by
  induction text generalizing quoted with
  | nil => rfl
  | cons c text ih =>
      rw [marksFrom, List.mapIdx_cons, ih]
      congr 1
      · cases quoted <;> simp
      · congr 1
        funext i d
        congr 1
        by_cases hc : c = '\'' <;> cases quoted <;> simp [hc, Nat.even_add_one]

theorem marksFrom_false (text : List Char) : marksFrom false text = activeMarks text := by
  simp [marksFrom_eq_mapIdx, activeMarks]

/-- Behind a text with an even number of apostrophes letters are active as from the start. -/
theorem activeMarks_append {x : List Char} (heven : Even (x.count '\'')) (y : List Char) :
    activeMarks (x ++ y) = activeMarks x ++ activeMarks y := by
  rw [activeMarks, List.mapIdx_append]
  congr 1
  · rw [activeMarks, List.mapIdx_eq_mapIdx_iff]
    intro i hi
    rw [List.take_append_of_le_length (Nat.le_of_lt hi)]
  · rw [activeMarks, List.mapIdx_eq_mapIdx_iff]
    intro i hi
    rw [Nat.add_comm, List.take_length_add_append, List.count_append]
    simp only [Nat.even_add, heven, true_iff]

theorem activeMarks_space (text : List Char) :
    activeMarks (' ' :: text) = none :: activeMarks text := by
  rw [← marksFrom_false, ← marksFrom_false]
  rfl

/-- An apostrophe is no letter and changes sides. -/
theorem marksFrom_apostrophe (quoted : Bool) (text : List Char) :
    marksFrom quoted ('\'' :: text) = none :: marksFrom (!quoted) text := by
  have hnone : fieldLetter? '\'' = none := by decide
  simp [marksFrom, hnone]

/-! ## Reading -/

/-- A text can be read exactly if its apostrophes leave it outside quoted text. -/
theorem isSome_marks?_iff {quoted : Bool} {text : List Char} :
    (marks? quoted text).isSome = true ↔ (Even (text.count '\'') ↔ quoted = false) := by
  fun_induction marks? quoted text with
  | case1 => simp
  | case2 quoted hquoted => simpa using hquoted
  | case3 quoted text ih => simpa [Nat.even_add_one] using ih
  | case4 quoted text _ ih => cases quoted <;> simpa [Nat.even_add_one] using ih
  | case5 quoted c text _ hquote ih => simpa [List.count_cons_of_ne hquote] using ih

theorem letterRuns_congr {x : Option Char} {marks marks' : List (Option Char)}
    (hhead : marks.head? = marks'.head?) (hruns : letterRuns marks = letterRuns marks') :
    letterRuns (x :: marks) = letterRuns (x :: marks') := by
  cases x with
  | none => exact hruns
  | some c => rw [letterRuns, letterRuns, hhead, hruns]

theorem letterRuns_of_marks? {quoted : Bool} {text : List Char} {marks : List (Option Char)}
    (h : marks? quoted text = some marks) :
    marks.head? = (marksFrom quoted text).head? ∧
      letterRuns marks = letterRuns (marksFrom quoted text) := by
  fun_induction marks? quoted text generalizing marks with
  | case1 => cases h
  | case2 =>
      cases h
      exact ⟨rfl, rfl⟩
  | case3 quoted text ih =>
      -- Two apostrophes are one mark when they are read and two when they are counted.
      obtain ⟨rest, hrest, rfl⟩ := Option.map_eq_some_iff.mp h
      rw [marksFrom_apostrophe, marksFrom_apostrophe, Bool.not_not]
      exact ⟨rfl, (ih hrest).2⟩
  | case4 quoted text _ ih =>
      obtain ⟨rest, hrest, rfl⟩ := Option.map_eq_some_iff.mp h
      rw [marksFrom_apostrophe]
      exact ⟨rfl, (ih hrest).2⟩
  | case5 quoted c text _ hquote ih =>
      obtain ⟨rest, hrest, rfl⟩ := Option.map_eq_some_iff.mp h
      obtain ⟨hhead, hruns⟩ := ih hrest
      have hsame : (quoted ^^ c == '\'') = quoted := by
        rw [beq_false_of_ne hquote, Bool.xor_false]
      rw [marksFrom, hsame]
      exact ⟨rfl, letterRuns_congr hhead hruns⟩

/-- A pattern is read exactly if it has an even number of apostrophes, and then its fields
are those of its active letters. -/
theorem fields_eq (text : List Char) :
    fields text =
      if Even (text.count '\'') then
        .ok ((letterRuns (activeMarks text)).flatMap fun (letter, n) => fieldsOfRun letter n)
      else .error (.unclosedQuote (String.ofList text)) := by
  have hsome : (marks? false text).isSome = true ↔ Even (text.count '\'') := by
    simp [isSome_marks?_iff]
  unfold fields
  cases hmarks : marks? false text with
  | none =>
      rw [hmarks] at hsome
      simp [← hsome]
  | some marks =>
      rw [hmarks] at hsome
      simp only [← hsome, Option.isSome_some, if_true, (letterRuns_of_marks? hmarks).2,
        marksFrom_false]

/-! ## Runs -/

theorem letterRuns_replicate_none (n : Nat) (marks : List (Option Char)) :
    letterRuns (List.replicate n none ++ marks) = letterRuns marks := by
  induction n with
  | zero => rfl
  | succ n ih => simpa [List.replicate_succ, letterRuns] using ih

/-- A letter that is followed by another one, or by none, is a run of its own. -/
theorem letterRuns_some {c : Char} {marks : List (Option Char)}
    (hhead : marks.head? ≠ some (some c)) :
    letterRuns (some c :: marks) = (c, 1) :: letterRuns marks := by
  rw [letterRuns]
  split
  · next d e n runs hd hruns =>
      have hne : c ≠ d := by
        rintro rfl
        exact hhead hd
      rw [if_neg hne, hruns]
  · rfl

/-- Marks that begin with a letter have a run of it first. -/
theorem exists_letterRuns_cons (c : Char) (marks : List (Option Char)) :
    ∃ n runs, letterRuns (some c :: marks) = (c, n + 1) :: runs := by
  rw [letterRuns]
  split
  · next d e n runs _ _ =>
      split
      · exact ⟨n, runs, rfl⟩
      · exact ⟨0, (e, n) :: runs, rfl⟩
  · exact ⟨0, _, rfl⟩

/-- One more letter of the same makes the first run longer. -/
theorem letterRuns_some_some (c : Char) (marks : List (Option Char)) :
    ∃ n runs, letterRuns (some c :: marks) = (c, n + 1) :: runs ∧
      letterRuns (some c :: some c :: marks) = (c, n + 2) :: runs := by
  obtain ⟨n, runs, hruns⟩ := exists_letterRuns_cons c marks
  refine ⟨n, runs, hruns, ?_⟩
  rw [letterRuns, hruns]
  simp

theorem letterRuns_replicate_some (n : Nat) (c : Char) {marks : List (Option Char)}
    (hhead : marks.head? ≠ some (some c)) :
    letterRuns (List.replicate (n + 1) (some c) ++ marks) = (c, n + 1) :: letterRuns marks := by
  induction n with
  | zero => simpa using letterRuns_some hhead
  | succ n ih =>
      obtain ⟨k, runs, hshort, hlong⟩ := letterRuns_some_some c (List.replicate n (some c) ++ marks)
      cases hshort.symm.trans ih
      exact hlong

/-- Marks that come in groups of equal ones, no two groups of the same next to each other,
have these groups as their runs. -/
theorem letterRuns_flatten {groups : List (List (Option Char))} (hne : [] ∉ groups)
    (hequal : ∀ group ∈ groups, group.IsChain fun x y => (x == y) = true)
    (hdiffer : groups.IsChain fun g g' => ∃ hg hg', (g.getLast hg == g'.head hg') = false) :
    letterRuns groups.flatten = groups.filterMap runOfGroup := by
  induction groups with
  | nil => rfl
  | cons group groups ih =>
      obtain ⟨hgroup, hrest⟩ := List.forall_mem_cons.mp hequal
      have hruns := ih (fun h => hne (List.mem_cons_of_mem _ h)) hrest hdiffer.tail
      obtain ⟨n, x, rfl⟩ : ∃ n x, group = List.replicate (n + 1) x := by
        cases group with
        | nil => exact absurd List.mem_cons_self hne
        | cons x group =>
            have hchain : (x :: group).IsChain (· = ·) := hgroup.imp fun _ _ h => eq_of_beq h
            have hgroup := List.isChain_cons_eq_iff_eq_replicate.mp hchain
            exact ⟨group.length, x, congrArg (x :: ·) hgroup⟩
      have hhead : groups.flatten.head? ≠ some x := by
        cases groups with
        | nil => simp
        | cons next groups =>
            obtain ⟨-, hnext, hx⟩ := (List.isChain_cons_cons.mp hdiffer).1
            rw [List.flatten_cons, List.head?_append_of_ne_nil _ hnext,
              List.head?_eq_some_head hnext]
            rintro heq
            simp_all
      rw [List.flatten_cons]
      cases x with
      | none =>
          rw [letterRuns_replicate_none, hruns]
          rfl
      | some c =>
          rw [letterRuns_replicate_some n c hhead, hruns]
          simp [runOfGroup, List.replicate_succ]

theorem letterRuns_eq_splitBy (marks : List (Option Char)) :
    letterRuns marks = (marks.splitBy (· == ·)).filterMap runOfGroup := by
  have hruns := letterRuns_flatten (List.nil_notMem_splitBy (· == ·) marks)
    (fun _ => List.isChain_of_mem_splitBy) (List.isChain_getLast_head_splitBy (· == ·) marks)
  rwa [List.flatten_splitBy] at hruns

theorem letterRuns_activeMarks (text : List Char) :
    letterRuns (activeMarks text) = activeRuns text :=
  letterRuns_eq_splitBy (activeMarks text)

/-- Written out, the runs are the letters that are marked. -/
theorem flatMap_letterRuns (marks : List (Option Char)) :
    (letterRuns marks).flatMap (fun (c, n) => List.replicate n c) = marks.reduceOption := by
  induction marks with
  | nil => rfl
  | cons x marks ih =>
      cases x with
      | none => simpa [letterRuns, List.reduceOption_cons_of_none] using ih
      | some c =>
          rw [List.reduceOption_cons_of_some, ← ih]
          by_cases hhead : marks.head? = some (some c)
          · obtain ⟨marks, rfl⟩ := List.head?_eq_some_iff.mp hhead
            obtain ⟨n, runs, hshort, hlong⟩ := letterRuns_some_some c marks
            rw [hlong, hshort]
            simp [List.replicate_succ]
          · rw [letterRuns_some hhead]
            rfl

/-- A scalar that is no active letter keeps the runs on its two sides apart. -/
theorem letterRuns_append_none (marks marks' : List (Option Char)) :
    letterRuns (marks ++ none :: marks') = letterRuns marks ++ letterRuns marks' := by
  induction marks with
  | nil => rfl
  | cons x marks ih =>
      cases x with
      | none => exact ih
      | some c =>
          by_cases hhead : marks.head? = some (some c)
          · obtain ⟨marks, rfl⟩ := List.head?_eq_some_iff.mp hhead
            obtain ⟨n, runs, hshort, hlong⟩ := letterRuns_some_some c marks
            obtain ⟨n', runs', hshort', hlong'⟩ :=
              letterRuns_some_some c (marks ++ none :: marks')
            rw [List.cons_append, hshort, hshort', List.cons_append] at ih
            cases ih
            rw [List.cons_append, List.cons_append, hlong, hlong', List.cons_append]
          · have hhead' : (marks ++ none :: marks').head? ≠ some (some c) := by
              cases marks with
              | nil => simp
              | cons y marks => simpa using hhead
            rw [List.cons_append, letterRuns_some hhead, letterRuns_some hhead', ih,
              List.cons_append]

theorem pos_of_mem_letterRuns {marks : List (Option Char)} :
    ∀ run ∈ letterRuns marks, 0 < run.2 := by
  induction marks with
  | nil => exact List.forall_mem_nil _
  | cons x marks ih =>
      cases x with
      | none => exact ih
      | some c =>
          by_cases hhead : marks.head? = some (some c)
          · obtain ⟨marks, rfl⟩ := List.head?_eq_some_iff.mp hhead
            obtain ⟨n, runs, hshort, hlong⟩ := letterRuns_some_some c marks
            rw [hshort, List.forall_mem_cons] at ih
            rw [hlong, List.forall_mem_cons]
            exact ⟨Nat.succ_pos _, ih.2⟩
          · rw [letterRuns_some hhead, List.forall_mem_cons]
            exact ⟨Nat.one_pos, ih⟩

/-! ## Fields -/

/-- The letter of a run is active, and a field letter. -/
theorem mem_activeLetters_of_mem_activeRuns {text : List Char} {run : Char × Nat}
    (h : run ∈ activeRuns text) : run.1 ∈ activeLetters text := by
  rw [← letterRuns_activeMarks] at h
  rw [activeLetters, ← flatMap_letterRuns, List.mem_flatMap]
  exact ⟨run, h, by simpa using Nat.ne_of_gt (pos_of_mem_letterRuns run h)⟩

theorem isSome_maxWidth?_of_mem {text : List Char} {c : Char} (h : c ∈ activeLetters text) :
    (maxWidth? c).isSome = true := by
  rw [activeLetters, List.reduceOption_mem_iff, activeMarks, List.mem_mapIdx] at h
  obtain ⟨i, hi, heq⟩ := h
  split at heq
  · unfold fieldLetter? at heq
    split at heq
    · next hsome =>
        cases heq
        exact hsome
    · cases heq
  · cases heq

/-- Taking fields off a run gives as many of the greatest width as fit and, if letters are
left over, one of these.  A run that is longer than the greatest width has the same letters
left over when so many are taken off. -/
theorem cutRun_eq (c : Char) {w : Nat} (hw : 0 < w) {turns n : Nat} (h : n ≤ turns) :
    cutRun c w turns n =
      List.replicate (n / w) ⟨c, w⟩ ++ if n % w = 0 then [] else [⟨c, n % w⟩] := by
  induction turns generalizing n with
  | zero =>
      obtain rfl := Nat.le_zero.mp h
      simp [cutRun]
  | succ turns ih =>
      rw [cutRun]
      by_cases hn : n = 0
      · simp [hn]
      rw [if_neg hn]
      rcases Nat.lt_or_ge n w with hlast | hlonger
      · have hnone : cutRun c w turns 0 = [] := by simpa using ih (Nat.zero_le turns)
        simp [Nat.min_eq_left (Nat.le_of_lt hlast), hnone, Nat.div_eq_of_lt hlast,
          Nat.mod_eq_of_lt hlast, hn]
      · have hrest : n - w ≤ turns := by omega
        rw [Nat.div_eq_sub_div hw hlonger, Nat.mod_eq_sub_mod hlonger, List.replicate_succ,
          List.cons_append, ← ih hrest, Nat.min_eq_right hlonger]

/-- The greatest width of a field is never zero. -/
theorem maxWidth?_pos {c : Char} {w : Nat} (h : maxWidth? c = some w) : 0 < w := by
  unfold maxWidth? at h
  repeat' split at h
  all_goals cases h
  all_goals decide

theorem fieldsOfRun_eq {c : Char} {w : Nat} (hw : maxWidth? c = some w) (n : Nat) :
    fieldsOfRun c n =
      List.replicate (n / w) ⟨c, w⟩ ++ if n % w = 0 then [] else [⟨c, n % w⟩] := by
  simp only [fieldsOfRun, hw]
  exact cutRun_eq c (maxWidth?_pos hw) (Nat.le_refl n)

/-- Written out, the fields of a run are the run. -/
theorem flatMap_fieldsOfRun {c : Char} (h : (maxWidth? c).isSome = true) (n : Nat) :
    (fieldsOfRun c n).flatMap (fun f => List.replicate f.width f.letter) =
      List.replicate n c := by
  obtain ⟨w, hw⟩ := Option.isSome_iff_exists.mp h
  have hfull : (List.replicate (n / w) (⟨c, w⟩ : DateTimeField)).flatMap
      (fun f => List.replicate f.width f.letter) = List.replicate (n / w * w) c := by
    simp [List.flatMap_replicate]
  have hrest : (if n % w = 0 then [] else [(⟨c, n % w⟩ : DateTimeField)]).flatMap
      (fun f => List.replicate f.width f.letter) = List.replicate (n % w) c := by
    split_ifs with hzero <;> simp [hzero]
  simp only [fieldsOfRun_eq hw, List.flatMap_append, hfull, hrest,
    List.replicate_append_replicate]
  rw [Nat.div_add_mod']

theorem mem_fieldsOfRun {c : Char} {n w : Nat} {f : DateTimeField} (hw : maxWidth? c = some w) :
    f ∈ fieldsOfRun c n ↔ f = ⟨c, w⟩ ∧ n / w ≠ 0 ∨ f = ⟨c, n % w⟩ ∧ n % w ≠ 0 := by
  rw [fieldsOfRun_eq hw, List.mem_append, List.mem_replicate]
  split_ifs with hzero <;> simp [hzero, and_comm]

theorem letter_of_mem_fieldsOfRun {c : Char} {n : Nat} {f : DateTimeField}
    (h : f ∈ fieldsOfRun c n) : f.letter = c := by
  cases hw : maxWidth? c with
  | none => simp [fieldsOfRun, hw] at h
  | some w => rcases (mem_fieldsOfRun hw).mp h with ⟨rfl, -⟩ | ⟨rfl, -⟩ <;> rfl

theorem fields_eq_ok_iff {text : List Char} {fs : List DateTimeField} :
    fields text = .ok fs ↔ Even (text.count '\'') ∧
      (activeRuns text).flatMap (fun (c, n) => fieldsOfRun c n) = fs := by
  rw [fields_eq, letterRuns_activeMarks]
  split_ifs with heven <;> simp [heven]

/-- Written out, the fields are the active letters. -/
theorem flatMap_fields {text : List Char} {fs : List DateTimeField} (h : fields text = .ok fs) :
    fs.flatMap (fun f => List.replicate f.width f.letter) = activeLetters text := by
  obtain ⟨-, rfl⟩ := fields_eq_ok_iff.mp h
  rw [activeLetters, ← flatMap_letterRuns, letterRuns_activeMarks, List.flatMap_assoc]
  exact List.flatMap_congr fun run hrun =>
    flatMap_fieldsOfRun (isSome_maxWidth?_of_mem (mem_activeLetters_of_mem_activeRuns hrun)) run.2

/-- The letters of the fields are the active letters. -/
theorem mem_activeLetters_iff {text : List Char} {fs : List DateTimeField}
    (h : fields text = .ok fs) {c : Char} :
    c ∈ activeLetters text ↔ ∃ f ∈ fs, f.letter = c := by
  constructor
  · intro hc
    rw [← flatMap_fields h, List.mem_flatMap] at hc
    obtain ⟨f, hf, hc⟩ := hc
    exact ⟨f, hf, (List.eq_of_mem_replicate hc).symm⟩
  · rintro ⟨f, hf, rfl⟩
    obtain ⟨-, rfl⟩ := fields_eq_ok_iff.mp h
    obtain ⟨run, hrun, hf⟩ := List.mem_flatMap.mp hf
    rw [letter_of_mem_fieldsOfRun hf]
    exact mem_activeLetters_of_mem_activeRuns hrun

/-- A space between two patterns keeps their fields apart. -/
theorem fields_append {x y : List Char} {fs gs : List DateTimeField} (hx : fields x = .ok fs)
    (hy : fields y = .ok gs) : fields (x ++ ' ' :: y) = .ok (fs ++ gs) := by
  obtain ⟨hxeven, rfl⟩ := fields_eq_ok_iff.mp hx
  obtain ⟨hyeven, rfl⟩ := fields_eq_ok_iff.mp hy
  rw [fields_eq_ok_iff]
  constructor
  · simp [hxeven, hyeven, Nat.even_add]
  · rw [← letterRuns_activeMarks, activeMarks_append hxeven, activeMarks_space,
      letterRuns_append_none, List.flatMap_append, letterRuns_activeMarks,
      letterRuns_activeMarks]

/-- A run of equal letters is cut into as many fields of the letter's greatest width as fit
and, if letters are left over, one field of these. -/
def IsCut (run : Char × Nat) (cut : List DateTimeField) : Prop :=
  ∃ w, maxWidth? run.1 = some w ∧
    cut = List.replicate (run.2 / w) ⟨run.1, w⟩ ++
      if run.2 % w = 0 then [] else [⟨run.1, run.2 % w⟩]

theorem isCut_fieldsOfRun {c : Char} (h : (maxWidth? c).isSome = true) (n : Nat) :
    IsCut (c, n) (fieldsOfRun c n) := by
  obtain ⟨w, hw⟩ := Option.isSome_iff_exists.mp h
  exact ⟨w, hw, fieldsOfRun_eq hw n⟩

/-- A pattern cannot be cut into fields exactly if it has an odd number of apostrophes.
Otherwise its fields, written out, are its active letters, and they are the cuts of its
active runs one behind the other. -/
theorem fields_conserve (text : List Char) :
    (∀ e, fields text = .error e ↔
      Odd (text.count '\'') ∧ e = .unclosedQuote (String.ofList text)) ∧
    (Even (text.count '\'') → ∃ fs, fields text = .ok fs ∧
      fs.flatMap (fun f => List.replicate f.width f.letter) = activeLetters text ∧
      ∃ cuts, List.Forall₂ IsCut (activeRuns text) cuts ∧ fs = cuts.flatten) := by
  constructor
  · intro e
    rw [← Nat.not_even_iff_odd, fields_eq]
    split_ifs with heven <;> simp [heven, eq_comm]
  · intro heven
    have hfields := fields_eq_ok_iff.mpr ⟨heven, rfl⟩
    refine ⟨_, hfields, flatMap_fields hfields,
      (activeRuns text).map fun (c, n) => fieldsOfRun c n, ?_, rfl⟩
    rw [List.forall₂_map_right_iff, List.forall₂_same]
    intro run hrun
    exact isCut_fieldsOfRun
      (isSome_maxWidth?_of_mem (mem_activeLetters_of_mem_activeRuns hrun)) run.2

/-- Quoted days are no fields and keep the runs next to them apart; an apostrophe that is
written twice ends no run of quoted text. -/
theorem fields_conserve_quotes :
    Even ("ddd'd'd''d'M''M'''".toList.count '\'') ∧
    fields "ddd'd'd''d'M''M'''".toList =
      .ok [⟨'d', 2⟩, ⟨'d', 1⟩, ⟨'d', 1⟩, ⟨'d', 1⟩] ∧
    (∃ fs, fields "ddd'd'd''d'M''M'''".toList = .ok fs ∧
      fs.flatMap (fun f => List.replicate f.width f.letter) =
        activeLetters "ddd'd'd''d'M''M'''".toList ∧
      ∃ cuts, List.Forall₂ IsCut (activeRuns "ddd'd'd''d'M''M'''".toList) cuts ∧
        fs = cuts.flatten) :=
  ⟨by decide, by rfl, (fields_conserve _).2 (by decide)⟩

end DateTimeSkeleton

end MessagePattern
