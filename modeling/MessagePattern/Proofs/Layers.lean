/-
# Settings in layers

Both kinds of skeletons are interpreted alike: their members are taken from left to right,
and what a member sets is laid over what those in front of it set.  `layered` is this run
for any way of laying over that is associative and for which empty settings change nothing.

What was set before does not matter to a member.  So a run over two lists is two runs with
the second result laid over the first, it succeeds exactly if every member does, and a
value is the one that was set last.
-/

import MessagePattern.Proofs.Outcome

namespace MessagePattern

variable {ε σ α : Type} {lay : σ → σ → σ} {blank : σ} {settings : α → Except ε σ}

/-- The settings of members in a row, each laid over those in front of it. -/
def layered (lay : σ → σ → σ) (blank : σ) (settings : α → Except ε σ) (members : List α) :
    Except ε σ :=
  members.foldlM (fun below x => lay below <$> settings x) blank

/-- A member alone sets what it says. -/
theorem layered_singleton [Std.LawfulIdentity lay blank] (x : α) :
    layered lay blank settings [x] = settings x := by
  rw [layered, List.foldlM_cons]
  cases settings x with
  | error e => rfl
  | ok above => exact congrArg Except.ok (Std.LawfulLeftIdentity.left_id above)

/-! ## One run behind another -/

section Append

variable [Std.Associative lay] [Std.LawfulIdentity lay blank]

theorem foldlM_eq_layered (below : σ) (members : List α) :
    members.foldlM (fun below x => lay below <$> settings x) below =
      lay below <$> layered lay blank settings members := by
  unfold layered
  induction members generalizing below with
  | nil => exact congrArg Except.ok (Std.LawfulRightIdentity.right_id below).symm
  | cons x members ih =>
      rw [List.foldlM_cons, List.foldlM_cons]
      cases settings x with
      | error e => rfl
      | ok above =>
          have hleft : lay blank above = above := Std.LawfulLeftIdentity.left_id above
          change members.foldlM _ (lay below above) =
            lay below <$> members.foldlM _ (lay blank above)
          rw [ih, hleft, ih above, ← comp_map]
          congr 1
          funext top
          exact Std.Associative.assoc below above top

/-- The members of two lists are taken one list after the other. -/
theorem layered_append (first second : List α) :
    layered lay blank settings (first ++ second) = do
      let below ← layered lay blank settings first
      let above ← layered lay blank settings second
      return lay below above := by
  unfold layered
  rw [List.foldlM_append]
  apply congrArg (Except.bind (layered lay blank settings first))
  funext below
  exact (foldlM_eq_layered below second).trans (map_eq_pure_bind _ _)

theorem layered_cons (x : α) (members : List α) :
    layered lay blank settings (x :: members) = do
      let below ← settings x
      let above ← layered lay blank settings members
      return lay below above := by
  rw [← List.singleton_append, layered_append, layered_singleton]

/-- A value is the one that the last member to set it gave it. -/
theorem get_of_layered {β : Type} {get : σ → Option β} (hblank : get blank = none)
    (hlay : ∀ below above, get (lay below above) = (get above).or (get below))
    {members : List α} {r : σ} (h : layered lay blank settings members = .ok r) :
    get r = members.reverse.findSome? fun x => (settings x).toOption.bind get := by
  induction members generalizing r with
  | nil =>
      cases h
      exact hblank
  | cons x members ih =>
      rw [layered_cons] at h
      obtain ⟨below, hbelow, hrest⟩ := bind_eq_ok h
      obtain ⟨above, habove, hlast⟩ := bind_eq_ok hrest
      cases hlast
      have hx : (settings x).toOption.bind get = get below := by
        simp [hbelow, Except.toOption]
      rw [hlay, ih habove, List.reverse_cons, List.findSome?_append,
        List.findSome?_singleton, hx]

end Append

/-! ## Success and failure -/

/-- The settings of all members can be laid over each other exactly if each has some. -/
theorem exists_layered_iff {members : List α} :
    (∃ r, layered lay blank settings members = .ok r) ↔
      ∀ x ∈ members, ∃ above, settings x = .ok above := by
  unfold layered
  induction members generalizing blank with
  | nil => simp [pure, Except.pure]
  | cons x members ih =>
      rw [List.foldlM_cons, List.forall_mem_cons]
      constructor
      · rintro ⟨r, h⟩
        obtain ⟨below, hbelow, hrest⟩ := bind_eq_ok h
        obtain ⟨above, habove, -⟩ := map_eq_ok hbelow
        exact ⟨⟨above, habove⟩, ih.mp ⟨r, hrest⟩⟩
      · rintro ⟨⟨above, habove⟩, hrest⟩
        rw [habove]
        exact ih.mpr hrest

/-- A run fails at the first member without settings, with what is wrong with it. -/
theorem layered_eq_error_iff {members : List α} {e : ε} :
    layered lay blank settings members = .error e ↔ ∃ before x after,
      members = before ++ x :: after ∧ (∀ y ∈ before, ∃ above, settings y = .ok above) ∧
        settings x = .error e := by
  have hok (before : List α) : (∀ y ∈ before, ∃ above, settings y = .ok above) ↔
      ∃ r, layered lay blank settings before = .ok r := exists_layered_iff.symm
  rw [layered, foldlM_eq_error_iff]
  simp only [map_eq_error_iff, hok]
  constructor
  · rintro ⟨before, x, after, r, hmembers, hbefore, hx⟩
    exact ⟨before, x, after, hmembers, ⟨r, hbefore⟩, hx⟩
  · rintro ⟨before, x, after, hmembers, ⟨r, hbefore⟩, hx⟩
    exact ⟨before, x, after, r, hmembers, hbefore, hx⟩

end MessagePattern
