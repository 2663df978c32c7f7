/-
# The texts of a tree

A tree holds many texts: the message as a whole, and the text in each of its tags
and branches.  `TextAt` is one of them together with what surrounds it, counted
the way reading counts: how many tags and branches are around it, and whether the
innermost of these branches belongs to a plural.

What is well formed as a whole is well formed in each of its texts, so what was
read can be looked at one element at a time.  `Element.Sound` lists what there is
to find, without looking into nested text.  And each text was read by itself, at
a place of the message and in a scope that says what surrounds it.
-/

import MessagePattern.Proofs.Locality
import MessagePattern.Proofs.Recovery
import MessagePattern.Proofs.WellFormed

namespace MessagePattern

open Cursor

/-- One of the texts of a tree, by its nesting level and by whether number signs
in it stand for a number. -/
inductive TextAt (elements : List Element) : (level : Nat) → (inPlural : Bool) →
    List Element → Prop
  | whole : TextAt elements 0 false elements
  | tag {level : Nat} {inPlural : Bool} {text children : List Element} {name : String}
      {location : Location} (around : TextAt elements level inPlural text)
      (mem : .tag name children location ∈ text) : TextAt elements (level + 1) inPlural children
  | branch {level : Nat} {inPlural : Bool} {text : List Element} {kind : SelectorKind}
      {name : String} {branches : List (Branch Element)} {location : Location} {b : Branch Element}
      (around : TextAt elements level inPlural text)
      (mem : .selector kind name branches location ∈ text) (chosen : b ∈ branches) :
      TextAt elements (level + 1) kind.isPlural b.value

/-! ## From the whole to its texts -/

theorem ElementsWellFormed.of_mem {o : ParseOptions} {level : Nat} {inPlural : Bool}
    {es : List Element} (h : ElementsWellFormed o level inPlural es) {e : Element} (he : e ∈ es) :
    e.WellFormed o level inPlural := by
  induction es with
  | nil => cases he
  | cons first es ih =>
      cases he with
      | head => exact h.1
      | tail _ he => exact ih h.2 he

theorem BranchesWellFormed.of_mem {o : ParseOptions} {level : Nat} {inPlural : Bool}
    {branches : List (Branch Element)} (h : BranchesWellFormed o level inPlural branches)
    {b : Branch Element} (hb : b ∈ branches) : WellFormedAt o level inPlural b.value := by
  induction branches with
  | nil => cases hb
  | cons first branches ih =>
      cases hb with
      | head => exact ⟨h.1.1, h.1.2.1, h.1.2.2⟩
      | tail _ hb => exact ih h.2 hb

/-- A well-formed tree has well-formed texts only. -/
theorem WellFormedAt.textAt {o : ParseOptions} {elements : List Element}
    (h : WellFormedAt o 0 false elements) {level : Nat} {inPlural : Bool} {text : List Element}
    (htext : TextAt elements level inPlural text) : WellFormedAt o level inPlural text := by
  induction htext with
  | whole => exact h
  | tag _ mem ih =>
      obtain ⟨-, -, hlevel, hchain, hall⟩ := ih.elements.of_mem mem
      exact ⟨hlevel, hchain, hall⟩
  | branch _ mem chosen ih =>
      obtain ⟨-, -, -, hall⟩ := ih.elements.of_mem mem
      exact hall.of_mem chosen

/-! ## One element of a text -/

/-- A skeleton comes with its meaning if reading was asked for it, and without it
otherwise. -/
def Understood {α : Type} (o : ParseOptions) (meaning : Except SkeletonError α)
    (parsed : Option α) : Prop :=
  if o.shouldParseSkeletons then ∃ options, meaning = .ok options ∧ parsed = some options
  else parsed = none

theorem understood_of_interpretation {α : Type} {o : ParseOptions}
    {meaning : Except SkeletonError α} {parsed : Option α}
    (h : parsed.map Except.ok = interpretation o meaning) : Understood o meaning parsed := by
  rcases interpretation_eq_some h with ⟨hparse, hmeaning⟩ | ⟨hparse, hnone⟩
  · rw [Understood, if_pos hparse]
    exact hmeaning
  · rw [Understood, hparse, if_neg Bool.false_ne_true]
    exact hnone

/-- What is to be found in an element that was read, nested text apart. -/
def Element.Sound (o : ParseOptions) (inPlural : Bool) : Element → Prop
  | .literal text _ => text ≠ ""
  | .argument name _ => isIdentifier name.toList = true
  | .number name style _ =>
    isIdentifier name.toList = true ∧ ∀ k, style = some (.skeleton k) →
      k.tokens ≠ [] ∧ Understood o (NumberSkeleton.interpret k.tokens) k.parsedOptions
  | .dateTime _ name style _ =>
    isIdentifier name.toList = true ∧ ∀ k, style = some (.skeleton k) →
      k.pattern ≠ "" ∧ Understood o (DateTimeSkeleton.interpret k.pattern.toList) k.parsedOptions
  | .selector kind name branches _ =>
    isIdentifier name.toList = true ∧ kind.isSafe = true ∧
      SelectorsWellFormed o kind.isPlural (branches.map Branch.selector)
  | .pound _ => inPlural = true
  | .tag name _ _ => o.ignoreTag = false ∧ isTagName name.toList = true

theorem Element.WellFormed.sound {o : ParseOptions} {level : Nat} {inPlural : Bool} {e : Element}
    (h : e.WellFormed o level inPlural) : e.Sound o inPlural := by
  cases e with
  | literal text location => exact h
  | argument name location => exact h
  | number name style location =>
      refine ⟨h.1, fun k hk => ?_⟩
      have hwf : k.WellFormed o := h.2 _ hk
      exact ⟨hwf.nonempty, understood_of_interpretation hwf.parsed⟩
  | dateTime kind name style location =>
      refine ⟨h.1, fun k hk => ?_⟩
      have hwf : k.WellFormed o := h.2 _ hk
      exact ⟨fun hempty => hwf.nonempty (by simp [hempty]),
        understood_of_interpretation hwf.parsed⟩
  | selector kind name branches location => exact ⟨h.1, h.2.1, h.2.2.1⟩
  | pound location => exact h
  | tag name children location => exact ⟨h.1, h.2.1⟩

/-- At every depth of a tree that was read, nesting is within its limit, literals
are told apart from each other, and every element is sound. -/
theorem sound_of_parse {message : String} {o : ParseOptions} {elements : List Element}
    (h : parse message o = .ok elements) {level : Nat} {inPlural : Bool} {text : List Element}
    (htext : TextAt elements level inPlural text) :
    level ≤ o.maxNestingDepth ∧ text.IsChain (MayMeet o) ∧ ∀ e ∈ text, e.Sound o inPlural := by
  have hwf := (wellFormedAt_of_parse h).textAt htext
  exact ⟨hwf.level_le, hwf.apart, fun e he => (hwf.elements.of_mem he).sound⟩

/-- The number sign in a tag in a plural branch is two levels deep, and directly
inside the plural. -/
theorem sound_of_parse_sign_in_tag :
    ∃ elements, parse "{n, plural, one{<b>#</b>!}}" { maxNestingDepth := 2 } = .ok elements ∧
      TextAt elements 2 true [.pound (.inLine 19 20)] ∧
      (Element.pound (.inLine 19 20)).Sound { maxNestingDepth := 2 } true := by
  have hparse : parse "{n, plural, one{<b>#</b>!}}" { maxNestingDepth := 2 } =
      .ok [.selector (.plural .cardinal 0) "n"
        [⟨"one", [.tag "b" [.pound (.inLine 19 20)] (.inLine 16 24),
          .literal "!" (.inLine 24 25)], .inLine 15 26⟩] (.inLine 0 27)] := rfl
  refine ⟨_, hparse, ?text, (sound_of_parse hparse ?text).2.2 _ List.mem_cons_self⟩
  apply TextAt.tag (.branch .whole List.mem_cons_self List.mem_cons_self)
  exact List.mem_cons_self

/-! ## Where the texts were read -/

theorem BranchesRead.of_mem {R : NestedRelation} (hR : ∀ {s c es d}, R s c es d → c.Reaches d)
    {s : Scope} {plural : Bool} {seen : List String} {c d : Cursor}
    {branches : List (Branch Element)} (h : BranchesRead R s plural seen c branches d)
    {b : Branch Element} (hb : b ∈ branches) :
    ∃ body stop, c.Reaches body ∧ R (s.branch plural) body b.value stop := by
  induction h with
  | nil seen c => cases hb
  | @cons seen c opening body stop after d selector value branches selected fresh opened inner
      closed rest ih =>
      have hbody : c.Reaches body := (reaches_of_readSelector selected).trans
        ((reaches_skipSpace opening).trans (.of_expect opened))
      cases hb with
      | head => exact ⟨body, stop, hbody, inner⟩
      | tail _ hb =>
          obtain ⟨body', stop', hreaches, hread⟩ := ih hb
          refine ⟨body', stop', ?_, hread⟩
          exact hbody.trans ((hR inner).trans ((Reaches.of_closeBrace closed).trans
            ((reaches_skipSpace after).trans hreaches)))

section Inner

variable {R : NestedRelation} (hR : ∀ {s c es d}, R s c es d → c.Reaches d) {o : ParseOptions}
  {s : Scope} {c d : Cursor} {name : String} {location : Location}

theorem ElementRead.exists_children {children : List Element}
    (h : ElementRead R o s c (.tag name children location) d) :
    ∃ body stop, c.Reaches body ∧ R s.tagBody body children stop := by
  generalize he : Element.tag name children location = e at h
  cases h with
  | @tag body stop d children tags begins opened inner closed =>
      cases he
      exact ⟨body, stop, (reaches_bump c).trans (reaches_of_opened opened), inner⟩
  | _ => cases he

include hR in
theorem ElementRead.exists_branch {kind : SelectorKind} {branches : List (Branch Element)}
    (h : ElementRead R o s c (.selector kind name branches location) d) {b : Branch Element}
    (hb : b ∈ branches) :
    ∃ body stop, c.Reaches body ∧ R (s.branch kind.isPlural) body b.value stop := by
  generalize he : Element.selector kind name branches location = e at h
  cases h with
  | selector head separated counted read nonempty other closed =>
      cases he
      obtain ⟨body, stop, hbody, hinner⟩ := read.of_mem hR hb
      rw [isPlural_selectorKind]
      refine ⟨body, stop, ?_, hinner⟩
      exact (reaches_bump c).trans (head.reaches.trans
        ((reaches_of_separated separated counted).trans hbody))
  | _ => cases he

end Inner

theorem elementsRead_of_readMessage {o : ParseOptions} {budget : Nat} {s : Scope} {c d : Cursor}
    {es : List Element} (h : readMessage o budget s c = .ok (es, d)) :
    ∃ budget, ElementsRead (NestedReader.Gives (readMessage o budget)) o s c es d := by
  cases budget with
  | zero => cases h
  | succ budget => exact ⟨budget, (readMessage_succ_iff.mp h).1⟩

/-- Each text of a message was read somewhere in it, in the scope that belongs to
what surrounds the text. -/
theorem exists_reading {o : ParseOptions} {message : List Char} {elements : List Element}
    {stop : Cursor} (h : readAll o message = .ok (elements, stop)) {level : Nat} {inPlural : Bool}
    {text : List Element} (htext : TextAt elements level inPlural text) :
    ∃ budget s c d, ElementsRead (NestedReader.Gives (readMessage o budget)) o s c text d ∧
      c.IsIn message ∧ s.plural = inPlural ∧ (s.nested = true ↔ 0 < level) := by
  induction htext with
  | whole =>
      obtain ⟨budget, hread⟩ := elementsRead_of_readMessage h
      exact ⟨budget, .top, _, stop, hread, isIn_start message, rfl, by simp [Scope.top]⟩
  | tag around mem ih =>
      obtain ⟨budget, s, c, d, hread, hc, hplural, -⟩ := ih
      obtain ⟨first, last, hfirst, htag⟩ := hread.of_mem reaches_of_readMessage mem
      obtain ⟨body, stop, hbody, hinner⟩ := htag.exists_children
      obtain ⟨budget', hread'⟩ := elementsRead_of_readMessage hinner
      exact ⟨budget', s.tagBody, body, stop, hread', hbody.isIn (hfirst.isIn hc), hplural,
        by simp [Scope.tagBody]⟩
  | branch around mem chosen ih =>
      obtain ⟨budget, s, c, d, hread, hc, -, -⟩ := ih
      obtain ⟨first, last, hfirst, hselector⟩ := hread.of_mem reaches_of_readMessage mem
      obtain ⟨body, stop, hbody, hinner⟩ := hselector.exists_branch reaches_of_readMessage chosen
      obtain ⟨budget', hread'⟩ := elementsRead_of_readMessage hinner
      exact ⟨budget', s.branch _, body, stop, hread', hbody.isIn (hfirst.isIn hc), rfl,
        by simp [Scope.branch]⟩

end MessagePattern
