/-
# Taking computations apart

Readers are sequences of steps that end at the first failure.  If such a sequence
succeeded, then each of its steps did; these lemmas give the steps back one at a
time, so that no proof about a reader has to unfold how steps are joined.

If a sequence failed, then one of its steps did, and `FaultsObey` says of all of
them at once what such a failure is like.
-/

import Mathlib.Data.List.Forall2

namespace MessagePattern

variable {ε α β : Type}

/-- A sequence of two steps succeeded: the first gave something from which the
second went on. -/
theorem bind_eq_ok {x : Except ε α} {f : α → Except ε β} {b : β} (h : (x >>= f) = .ok b) :
    ∃ a, x = .ok a ∧ f a = .ok b := by
  cases x with
  | error e => cases h
  | ok a => exact ⟨a, rfl, h⟩

theorem map_eq_ok {x : Except ε α} {f : α → β} {b : β} (h : (f <$> x) = .ok b) :
    ∃ a, x = .ok a ∧ f a = b := by
  cases x with
  | error e => cases h
  | ok a =>
      cases h
      exact ⟨a, rfl, rfl⟩

/-- A step that is done for every member of a list succeeds as a whole exactly
if it does for each member. -/
theorem mapM_eq_ok_iff {f : α → Except ε β} {xs : List α} {ys : List β} :
    xs.mapM f = .ok ys ↔ List.Forall₂ (fun x y => f x = .ok y) xs ys := by
  induction xs generalizing ys with
  | nil =>
      rw [List.mapM_nil, List.forall₂_nil_left_iff]
      exact ⟨fun h => (Except.ok.inj h).symm, fun h => h ▸ rfl⟩
  | cons x xs ih =>
      rw [List.mapM_cons]
      constructor
      · intro h
        obtain ⟨y, hy, rest⟩ := bind_eq_ok h
        obtain ⟨zs, hzs, last⟩ := bind_eq_ok rest
        cases last
        exact .cons hy (ih.mp hzs)
      · intro h
        cases h with
        | cons hy rest =>
            rw [hy, ih.mpr rest]
            rfl

/-- It matters only what a step does for the members of the list. -/
theorem mapM_congr {f g : α → Except ε β} {xs : List α} (h : ∀ x ∈ xs, f x = g x) :
    xs.mapM f = xs.mapM g := by
  induction xs with
  | nil => rfl
  | cons x xs ih =>
      rw [List.mapM_cons, List.mapM_cons, h x List.mem_cons_self,
        ih fun y hy => h y (List.mem_cons_of_mem x hy)]

/-- A check that is made of every member of a list succeeds as a whole exactly if
every member passes. -/
theorem forM_eq_ok_iff {f : α → Except ε Unit} {xs : List α} :
    xs.forM f = .ok () ↔ ∀ x ∈ xs, f x = .ok () := by
  induction xs with
  | nil => simp [pure, Except.pure]
  | cons x xs ih =>
      rw [List.forM_eq_forM, List.forM_cons, List.forall_mem_cons, ← ih]
      constructor
      · intro h
        obtain ⟨⟨⟩, hx, hxs⟩ := bind_eq_ok h
        exact ⟨hx, hxs⟩
      · rintro ⟨hx, hxs⟩
        rw [hx]
        exact hxs

/-! ## Failures -/

/-- A computation succeeds exactly if nothing makes it fail. -/
theorem exists_eq_ok_iff {x : Except ε α} : (∃ a, x = .ok a) ↔ ∀ e, x ≠ .error e := by
  cases x with
  | error e => simp
  | ok a => simp

/-- A sequence of two steps failed: the first did, or it gave something on which
the second failed. -/
theorem bind_eq_error_iff {x : Except ε α} {f : α → Except ε β} {e : ε} :
    (x >>= f) = .error e ↔ x = .error e ∨ ∃ a, x = .ok a ∧ f a = .error e := by
  cases x with
  | error e' => simp [bind, Except.bind]
  | ok a => simp [bind, Except.bind]

theorem map_eq_error_iff {x : Except ε α} {f : α → β} {e : ε} :
    (f <$> x) = .error e ↔ x = .error e := by
  cases x with
  | error e' => simp [Functor.map, Except.map]
  | ok a => simp [Functor.map, Except.map]

/-- Steps from member to member of a list fail as a whole exactly if they fail at
some member, after they succeeded for those in front of it. -/
theorem foldlM_eq_error_iff {f : β → α → Except ε β} {xs : List α} {b : β} {e : ε} :
    xs.foldlM f b = .error e ↔ ∃ before x after b', xs = before ++ x :: after ∧
      before.foldlM f b = .ok b' ∧ f b' x = .error e := by
  constructor
  · intro h
    induction xs generalizing b with
    | nil => cases h
    | cons x xs ih =>
        rw [List.foldlM_cons] at h
        rcases bind_eq_error_iff.mp h with hx | ⟨b', hx, hxs⟩
        · exact ⟨[], x, xs, b, rfl, rfl, hx⟩
        · obtain ⟨before, y, after, last, rfl, hbefore, hy⟩ := ih hxs
          refine ⟨x :: before, y, after, last, rfl, ?_, hy⟩
          rw [List.foldlM_cons, hx]
          exact hbefore
  · rintro ⟨before, x, after, b', rfl, hbefore, hx⟩
    rw [List.foldlM_append, hbefore]
    exact bind_eq_error_iff.mpr (.inr ⟨b', rfl, bind_eq_error_iff.mpr (.inl hx)⟩)

/-- A check of every member of a list fails as a whole exactly if it fails for
some member, after those in front of it passed. -/
theorem forM_eq_error_iff {f : α → Except ε Unit} {xs : List α} {e : ε} :
    xs.forM f = .error e ↔ ∃ before x after, xs = before ++ x :: after ∧
      (∀ y ∈ before, f y = .ok ()) ∧ f x = .error e := by
  constructor
  · intro h
    induction xs with
    | nil => cases h
    | cons x xs ih =>
        rcases bind_eq_error_iff.mp h with hx | ⟨⟨⟩, hx, hxs⟩
        · exact ⟨[], x, xs, rfl, List.forall_mem_nil _, hx⟩
        · obtain ⟨before, y, after, rfl, hbefore, hy⟩ := ih hxs
          exact ⟨x :: before, y, after, rfl, List.forall_mem_cons.mpr ⟨hx, hbefore⟩, hy⟩
  · rintro ⟨before, x, after, rfl, hbefore, hx⟩
    rw [List.forM_eq_forM, List.forM_append]
    exact bind_eq_error_iff.mpr (.inr ⟨(), forM_eq_ok_iff.mpr hbefore,
      bind_eq_error_iff.mpr (.inl hx)⟩)

/-- A step that is done for every member of a list fails as a whole exactly if it
fails for some member, after it succeeded for those in front of it. -/
theorem mapM_eq_error_iff {f : α → Except ε β} {xs : List α} {e : ε} :
    xs.mapM f = .error e ↔ ∃ before x after, xs = before ++ x :: after ∧
      (∀ y ∈ before, ∃ b, f y = .ok b) ∧ f x = .error e := by
  induction xs with
  | nil => simp [pure, Except.pure]
  | cons x xs ih =>
      rw [List.mapM_cons, bind_eq_error_iff]
      have hpure (b : β) (bs : List β) : (pure (b :: bs) : Except ε (List β)) ≠ .error e := nofun
      simp only [bind_eq_error_iff, hpure, and_false, exists_false, or_false, ih]
      constructor
      · rintro (hx | ⟨b, hx, before, y, after, rfl, hbefore, hy⟩)
        · exact ⟨[], x, xs, rfl, List.forall_mem_nil _, hx⟩
        · exact ⟨x :: before, y, after, rfl, List.forall_mem_cons.mpr ⟨⟨b, hx⟩, hbefore⟩, hy⟩
      · rintro ⟨before, y, after, hxs, hbefore, hy⟩
        cases before with
        | nil =>
            cases hxs
            exact .inl hy
        | cons z before =>
            cases hxs
            obtain ⟨⟨b, hx⟩, hrest⟩ := List.forall_mem_cons.mp hbefore
            exact .inr ⟨b, hx, before, y, after, rfl, hrest, hy⟩

/-- Whatever makes the computation fail satisfies `P`. -/
def FaultsObey (P : ε → Prop) (outcome : Except ε α) : Prop := ∀ e, outcome = .error e → P e

namespace FaultsObey

variable {P : ε → Prop}

theorem ok (a : α) : FaultsObey P (.ok a) := fun _ h => nomatch h

theorem error {e : ε} (h : P e) : FaultsObey P (.error e : Except ε α) := by
  intro e' he'
  cases he'
  exact h

/-- In a sequence of steps either the first fails or one behind it. -/
theorem bind {x : Except ε α} {next : α → Except ε β} (hx : FaultsObey P x)
    (hnext : ∀ a, x = .ok a → FaultsObey P (next a)) : FaultsObey P (x >>= next) := by
  cases x with
  | error e => exact .error (hx e rfl)
  | ok a => exact hnext a rfl

theorem map {x : Except ε α} {f : α → β} (hx : FaultsObey P x) : FaultsObey P (f <$> x) :=
  hx.bind fun a _ => ok (f a)

theorem mapM {f : α → Except ε β} {xs : List α} (h : ∀ x ∈ xs, FaultsObey P (f x)) :
    FaultsObey P (xs.mapM f) := by
  induction xs with
  | nil => exact .ok []
  | cons x xs ih =>
      rw [List.mapM_cons]
      apply (h x List.mem_cons_self).bind
      intro y _
      exact (ih fun z hz => h z (List.mem_cons_of_mem x hz)).bind fun ys _ => .ok (y :: ys)

end FaultsObey

end MessagePattern
