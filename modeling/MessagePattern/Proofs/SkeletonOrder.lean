/-
# Skeletons stand in the order of the text

A reader never goes back, so what it comes past stands in the message in the order
in which it comes past it.  For skeletons this is proved here of every reading,
also of one that fails: each skeleton ends in front of those that follow it in the
log, and none begins in front of where reading began.  The first skeleton of the
log with some property is therefore the first one in the text.

As with `Forward` there is one lemma for each reader, and nested text comes in as
a hypothesis.
-/

import MessagePattern.Proofs.ForwardOnly
import MessagePattern.Proofs.LoggedReading
import MessagePattern.Proofs.Tiling

namespace MessagePattern

open Cursor

/-- Between two cursors the skeletons at the checkpoints are passed one behind the other. -/
inductive OnTheWay : Cursor → List Checkpoint → Cursor → Prop
  | done {c d : Cursor} (reaches : c.Reaches d) : OnTheWay c [] d
  | skeleton {c d e f : Cursor} {k : Skeleton} {points : List Checkpoint} (ahead : c.Reaches d)
      (passed : d.Reaches e) (located : k.location = e.since d.position)
      (rest : OnTheWay e points f) : OnTheWay c (.skeleton k :: points) f
  | other {c d : Cursor} {p : Checkpoint} {points : List Checkpoint} (none : p.skeleton? = none)
      (rest : OnTheWay c points d) : OnTheWay c (p :: points) d

namespace OnTheWay

variable {c d e : Cursor} {points more : List Checkpoint}

theorem of_reaches (h : c.Reaches d) (hrest : OnTheWay d points e) : OnTheWay c points e := by
  induction hrest with
  | done reaches => exact .done (h.trans reaches)
  | skeleton ahead passed located rest => exact .skeleton (h.trans ahead) passed located rest
  | other none rest ih => exact .other none (ih h)

theorem append (first : OnTheWay c points d) (second : OnTheWay d more e) :
    OnTheWay c (points ++ more) e := by
  induction first with
  | done reaches => exact .of_reaches reaches second
  | skeleton ahead passed located rest ih => exact .skeleton ahead passed located (ih second)
  | other none rest ih => exact .other none (ih second)

/-- What is passed lies ahead of where the way begins. -/
theorem offset_le (h : OnTheWay c points d) :
    ∀ k ∈ points.filterMap Checkpoint.skeleton?, c.position.offset ≤ k.location.start.offset := by
  induction h with
  | done reaches => exact fun _ hk => nomatch hk
  | @skeleton c d e f k points ahead passed located rest ih =>
      intro k' hk'
      rcases List.mem_cons.mp hk' with rfl | hk'
      · rw [located]
        exact ahead.offset_le
      · exact (ahead.trans passed).offset_le.trans (ih k' hk')
  | other none rest ih =>
      rw [List.filterMap_cons_none none]
      exact ih

end OnTheWay

/-- The one skeleton ends before the other begins. -/
def Skeleton.Before (k k' : Skeleton) : Prop :=
  k.location.stop.offset ≤ k'.location.start.offset

theorem OnTheWay.pairwise {c d : Cursor} {points : List Checkpoint} (h : OnTheWay c points d) :
    (points.filterMap Checkpoint.skeleton?).Pairwise Skeleton.Before := by
  induction h with
  | done reaches => exact .nil
  | @skeleton c d e f k points ahead passed located rest ih =>
      refine .cons ?_ ih
      intro k' hk'
      rw [Skeleton.Before, located]
      exact rest.offset_le k' hk'
  | other none rest ih =>
      rw [List.filterMap_cons_none none]
      exact ih

/-! ## Outcomes -/

/-- Reading goes on to a cursor ahead, past the skeletons of its log.  Where it succeeds, that is
the cursor behind what was read. -/
def Logged.Goes {α : Type} (stop : α → Cursor) (c : Cursor) (x : Logged α) : Prop :=
  ∃ d, OnTheWay c x.log d ∧ ∀ a, x.outcome = .ok a → stop a = d

namespace Logged.Goes

variable {α β : Type} {stop : α → Cursor} {stop' : β → Cursor} {c d : Cursor}

/-- What is noted of a success is passed on the way to where it stopped. -/
theorem ok_noting {points : α → List Checkpoint} {a : α} (h : OnTheWay c (points a) (stop a)) :
    Goes stop c (.noting points (.ok a)) := by
  refine ⟨stop a, h, ?_⟩
  rintro _ ⟨⟩
  rfl

theorem ok {a : α} (h : c.Reaches (stop a)) : Goes stop c (pure a) := by
  have hnoted : Goes stop c (.noting (fun _ => []) (.ok a)) := ok_noting (.done h)
  exact hnoted

theorem failed (f : Failure) : Goes stop c (liftM (.error f : Except Failure α)) :=
  ⟨c, .done (.refl c), nofun⟩

theorem of_forward {x : Except Failure α} (h : Forward stop c x) : Goes stop c (liftM x) := by
  cases x with
  | error f => exact failed f
  | ok a => exact ok (h.reaches a rfl)

theorem of_reaches {x : Logged α} (h : c.Reaches d) (hx : Goes stop d x) : Goes stop c x := by
  obtain ⟨e, hway, hstop⟩ := hx
  exact ⟨e, .of_reaches h hway, hstop⟩

theorem past {p : Checkpoint} (hp : p.skeleton? = none) {x : Logged α} (hx : Goes stop c x) :
    Goes stop c (do Logged.past p; x) := by
  obtain ⟨d, hway, hstop⟩ := hx
  exact ⟨d, .other hp hway, hstop⟩

/-- Of two steps the second goes on where the first stopped. -/
theorem bind {x : Logged α} {next : α → Logged β} (hx : Goes stop c x)
    (hnext : ∀ a, Goes stop' (stop a) (next a)) : Goes stop' c (x >>= next) := by
  obtain ⟨log, outcome⟩ := x
  obtain ⟨d, hway, hstop⟩ := hx
  cases outcome with
  | error f => exact ⟨d, hway, nofun⟩
  | ok a =>
      obtain ⟨e, hnext, hend⟩ := hnext a
      rw [hstop a rfl] at hnext
      exact ⟨e, hway.append hnext, hend⟩

theorem map {x : Logged α} {f : α → β} (hx : Goes stop c x) (hf : ∀ a, stop' (f a) = stop a) :
    Goes stop' c (f <$> x) := by
  apply hx.bind
  intro a
  exact ok (hf a ▸ .refl (stop a))

end Logged.Goes

/-! ## Readers without nested text -/

section Styles

variable {c styled d : Cursor} {opening : Position} {text : Option (List Char × Location)}

/-- The style of an argument is passed between its type and its closing brace. -/
theorem onTheWay_style {σ : Type} {make : List Char → Location → Except Failure (Style σ)}
    {style : Option (Style σ)} (wrap : σ → Skeleton)
    (read : readOptionalStyle c = .ok (text, styled))
    (closed : styled.closeBrace opening = .ok d) (made : StyleMade make text style)
    (hmake : ∀ {text location k}, make text location = .ok (.skeleton k) →
      (wrap k).location = location) :
    OnTheWay c (style.toList.flatMap (styleCheckpoints wrap)) d := by
  have hclosed := Reaches.of_closeBrace closed
  have hreaches := (reaches_of_readOptionalStyle read).trans hclosed
  match style with
  | none => exact .done hreaches
  | some (.text name) => exact .done hreaches
  | some (.skeleton k) =>
      obtain ⟨source, location, rfl, hmade⟩ := made.exists_text rfl
      rcases readOptionalStyle_cases read with ⟨hnone, -⟩ | ⟨_, _, comma, hsome, hcomma, hstyle⟩
      · cases hnone
      · cases hsome
        obtain ⟨hover, hlocation⟩ := readStyle_located hstyle
        exact .skeleton (reaches_style hcomma) hover ((hmake hmade).trans hlocation) (.done hclosed)

end Styles

section Readers

variable (o : ParseOptions) (level : Nat) (name : String) (opening : Position) (c : Cursor)

theorem goes_readNumber :
    Logged.Goes Prod.snd c
      (.noting (fun r => r.1.checkpoints level) (readNumber o name opening c)) := by
  cases hread : readNumber o name opening c with
  | error f => exact .failed f
  | ok r =>
      obtain ⟨text, styled, style, hstyle, hclosed, hmade, he⟩ := readNumber_eq_ok hread
      refine .ok_noting ?_
      rw [he]
      exact onTheWay_style .number hstyle hclosed hmade location_of_numberStyle

theorem goes_readDateTime (kind : DateTimeKind) :
    Logged.Goes Prod.snd c
      (.noting (fun r => r.1.checkpoints level) (readDateTime o kind name opening c)) := by
  cases hread : readDateTime o kind name opening c with
  | error f => exact .failed f
  | ok r =>
      obtain ⟨text, styled, style, hstyle, hclosed, hmade, he⟩ := readDateTime_eq_ok hread
      refine .ok_noting ?_
      rw [he]
      exact onTheWay_style .dateTime hstyle hclosed hmade location_of_dateTimeStyle

end Readers

/-! ## Readers with nested text -/

section Nested

variable {inner : LoggedReader} (hinner : ∀ s c, (inner s c).Goes Prod.snd c) (o : ParseOptions)
  (level : Nat) (s : Scope)

include hinner

theorem goes_logFragment (plural : Bool) (selector : String) (c : Cursor) :
    (logFragment inner s plural selector c).Goes Prod.snd c := by
  apply Logged.Goes.of_reaches (reaches_skipSpace c)
  apply (Logged.Goes.of_forward Forward.expect).bind
  intro body
  apply (hinner _ body).bind
  rintro ⟨value, stop⟩
  apply (Logged.Goes.of_forward Forward.closeBrace).bind
  exact fun after => .ok (reaches_skipSpace after)

theorem goes_logBranches (plural : Bool) (bound : Nat) (seen : List String) (c : Cursor) :
    (logBranches inner s plural bound seen c).Goes Prod.snd c := by
  induction bound generalizing seen c with
  | zero => exact .ok (.refl c)
  | succ bound ih =>
      apply (Logged.Goes.of_forward (forward_readSelector c plural)).bind
      intro found
      match found with
      | none => exact .ok (.refl c)
      | some (selector, d) =>
          simp only
          split
          · exact .failed _
          · apply (goes_logFragment hinner s plural selector d).bind
            rintro ⟨branch, next⟩
            exact (ih _ next).map fun _ => rfl

theorem goes_logAllBranches (plural : Bool) (c : Cursor) :
    (logAllBranches inner o s plural c).Goes Prod.snd c := by
  apply (goes_logBranches hinner s plural _ [] c).bind
  rintro ⟨branches, stop⟩
  simp only
  split
  · exact .failed _
  split
  · exact .failed _
  · exact .past rfl (.ok (.refl stop))

theorem goes_logSelectorArgument (plural : Option PluralType) (name : String)
    (opening : Position) (c : Cursor) :
    (logSelectorArgument inner o s plural name opening c).Goes Prod.snd c := by
  apply Logged.Goes.of_reaches (reaches_skipSpace c)
  apply (Logged.Goes.of_forward Forward.expect).bind
  intro comma
  apply Logged.Goes.of_reaches (reaches_skipSpace comma)
  apply (Logged.Goes.of_forward (forward_readOffset _ _)).bind
  rintro ⟨offset, first⟩
  apply (goes_logAllBranches hinner o s _ first).bind
  rintro ⟨branches, last⟩
  apply (Logged.Goes.of_forward Forward.closeBrace).bind
  exact fun stop => .ok (.refl stop)

theorem goes_logTypedArgument (name : String) (opening : Position) (c : Cursor) :
    (logTypedArgument inner level o s name opening c).Goes Prod.snd c := by
  apply Logged.Goes.of_reaches (reaches_identifier c)
  unfold logTypedArgument
  simp only
  split
  · exact .failed _
  cases argumentTypes.lookup c.identifier.1 with
  | none => exact .failed _
  | some type =>
      cases type with
      | number => exact goes_readNumber o level name opening _
      | dateTime kind => exact goes_readDateTime o level name opening _ kind
      | selector plural => exact goes_logSelectorArgument hinner o s plural name opening _

theorem goes_logArgumentTail (name : String) (opening : Position) (c : Cursor) :
    (logArgumentTail inner level o s name opening c).Goes Prod.snd c := by
  unfold logArgumentTail
  cases c.rest with
  | nil => exact .failed _
  | cons ch text =>
      simp only
      split
      · exact .ok (reaches_bump c)
      split
      · split
        · exact .failed _
        · apply Logged.Goes.of_reaches ((reaches_bump c).trans (reaches_skipSpace c.bump))
          exact goes_logTypedArgument hinner o level s name opening _
      · exact .failed _

theorem goes_logArgument (c : Cursor) : (logArgument inner level o s c).Goes Prod.snd c := by
  have hnamed := ((reaches_bump c).trans (reaches_skipSpace c.bump)).trans
    ((reaches_identifier _).trans (reaches_skipSpace _))
  unfold logArgument
  simp only
  cases c.bump.skipSpace.rest with
  | nil => exact .failed _
  | cons ch text =>
      simp only
      split
      · exact .failed _
      split
      · exact .failed _
      · exact .of_reaches hnamed (goes_logArgumentTail hinner o level s _ _ _)

theorem goes_logTag (c : Cursor) : (logTag inner s c).Goes Prod.snd c := by
  have hnamed := ((reaches_bump c).trans (reaches_tagName c.bump)).trans (reaches_skipSpace _)
  unfold logTag
  simp only
  cases hclosed : c.bump.tagName.2.skipSpace.skip? ['/', '>'] with
  | some d => exact .ok (hnamed.trans (Passes.of_skip? hclosed).reaches)
  | none =>
      apply Logged.Goes.of_reaches hnamed
      apply (Logged.Goes.of_forward Forward.expect).bind
      intro body
      apply (hinner _ body).bind
      rintro ⟨children, closing⟩
      apply (Logged.Goes.of_forward (forward_readClosingTag _ _ _)).bind
      exact fun stop => .ok (.refl stop)

theorem goes_logElement (c : Cursor) : (logElement inner level o s c).Goes c.behind c := by
  unfold logElement
  cases c.rest with
  | nil => exact .ok (.refl c)
  | cons ch text =>
      simp only
      split
      · exact (goes_logArgument hinner o level s c).map fun _ => rfl
      split
      · exact .ok (.refl c)
      split
      · exact .ok (reaches_bump c)
      split
      · split
        · exact .ok (.refl c)
        · exact .failed _
      split
      · exact (goes_logTag hinner s c).map fun _ => rfl
      · exact .ok (reaches_advance _ c)

theorem goes_logElements (bound : Nat) (c : Cursor) :
    (logElements inner level o s bound c).Goes Prod.snd c := by
  induction bound generalizing c with
  | zero => exact .ok (.refl c)
  | succ bound ih =>
      apply (goes_logElement hinner o level s c).bind
      intro found
      match found with
      | none => exact .ok (.refl c)
      | some (e, d) => exact (ih d).map fun _ => rfl

end Nested

theorem goes_logMessage (o : ParseOptions) (budget level : Nat) (s : Scope) (c : Cursor) :
    (logMessage o budget level s c).Goes Prod.snd c := by
  induction budget generalizing level s c with
  | zero => exact .failed _
  | succ budget ih => exact .past rfl (goes_logElements (ih (level + 1)) o level s _ c)

/-- The skeletons that reading comes past stand in the order of the text. -/
theorem skeletonsPassed_pairwise (message : String) (o : ParseOptions) :
    (skeletonsPassed message o).Pairwise Skeleton.Before := by
  obtain ⟨_, hway, -⟩ := goes_logMessage o (o.maxNestingDepth + 1) 0 .top (.start message.toList)
  exact hway.pairwise

end MessagePattern
