/-
# No reader goes back

`Forward` says of the outcome of a reader that it lies ahead: if reading succeeded,
the cursor is behind what was read, and if it failed, it stopped on the way.

A reader of elements is handed a reader for the text nested in them, and `ReadsOn`
says once for each such reader what it does with it: it asks for nested text ahead
of its cursor only, and reads on from where that text ended.  From this follows
that it goes forward if nested text does, and that whatever it asks for is ahead.
-/

import MessagePattern.Proofs.Exactness

namespace MessagePattern

open Cursor

/-- Where the cursor is behind something that may not be there. -/
def Cursor.behind {α : Type} (c : Cursor) : Option (α × Cursor) → Cursor
  | none => c
  | some (_, d) => d

/-! ## Outcomes -/

/-- The outcome lies ahead of the cursor: `stop` tells where the cursor is behind
what was read, and a failure tells itself where the cursor was left. -/
structure Forward {α : Type} (stop : α → Cursor) (c : Cursor) (outcome : Except Failure α) :
    Prop where
  reaches : ∀ a, outcome = .ok a → c.Reaches (stop a)
  stops : ∀ f, outcome = .error f → ∃ d, c.Reaches d ∧ f.stop = d.position

namespace Forward

variable {α β : Type} {stop : α → Cursor} {stop' : β → Cursor} {c d : Cursor}

theorem ok {a : α} (h : c.Reaches (stop a)) : Forward stop c (.ok a) where
  reaches := by
    rintro _ ⟨⟩
    exact h
  stops _ herror := nomatch herror

theorem error {f : Failure} (h : c.Reaches d) (hf : f.stop = d.position) :
    Forward stop c (.error f) where
  reaches _ hok := nomatch hok
  stops := by
    rintro _ ⟨⟩
    exact ⟨d, h, hf⟩

theorem fail {kind : ErrorKind} {location : Location} (h : c.Reaches d) :
    Forward stop c (d.fail kind location) :=
  error h rfl

theorem failWith {kind : ErrorKind} {location : Location} {cause : SkeletonError}
    (h : c.Reaches d) : Forward stop c (d.failWith kind location cause) :=
  error h rfl

theorem of_reaches {outcome : Except Failure α} (h : c.Reaches d)
    (houtcome : Forward stop d outcome) : Forward stop c outcome where
  reaches a ha := h.trans (houtcome.reaches a ha)
  stops f hf := by
    obtain ⟨stop, hstop, hposition⟩ := houtcome.stops f hf
    exact ⟨stop, h.trans hstop, hposition⟩

/-- Of two steps the second goes on where the first stopped. -/
theorem bind {x : Except Failure α} {next : α → Except Failure β} (hx : Forward stop c x)
    (hnext : ∀ a, Forward stop' (stop a) (next a)) : Forward stop' c (x >>= next) := by
  cases x with
  | error f =>
      obtain ⟨d, hd, hposition⟩ := hx.stops f rfl
      exact error hd hposition
  | ok a => exact of_reaches (hx.reaches a rfl) (hnext a)

theorem map {x : Except Failure α} {f : α → β} (hx : Forward stop c x)
    (hf : ∀ a, stop' (f a) = stop a) : Forward stop' c (f <$> x) :=
  hx.bind fun a => ok (hf a ▸ .refl (stop a))

theorem expect {text : List Char} {kind : ErrorKind} {location : Location} :
    Forward id c (c.expect text kind location) := by
  cases hexpect : c.expect text kind location with
  | ok d => exact ok (.of_expect hexpect)
  | error f =>
      unfold Cursor.expect at hexpect
      split at hexpect
      · cases hexpect
      · cases hexpect
        exact error (.refl c) rfl

theorem closeBrace {opening : Position} : Forward id c (c.closeBrace opening) := expect

end Forward

/-! ## Readers without nested text -/

section Readers

variable (c : Cursor)

theorem forward_readInteger (absent excessive : ErrorKind) :
    Forward Prod.snd c (readInteger absent excessive c) := by
  unfold readInteger
  simp only
  split
  · exact .fail (reaches_advance _ c)
  split
  · exact .fail (reaches_advance _ c)
  · exact .ok (reaches_advance _ c)

theorem forward_readOffset (plural : Bool) : Forward Prod.snd c (readOffset plural c) := by
  unfold readOffset
  simp only
  split
  · apply Forward.of_reaches (reaches_identifier c)
    apply Forward.expect.bind
    intro colon
    apply (Forward.of_reaches (reaches_skipSpace colon) (forward_readInteger _ _ _)).bind
    exact fun _ => .ok (reaches_skipSpace _)
  · exact .ok (.refl c)

theorem forward_readSelector (plural : Bool) :
    Forward c.behind c (readSelector plural c) := by
  unfold readSelector
  simp only
  split
  · exact .ok (reaches_identifier c)
  split
  · split
    · exact .ok (.refl c)
    · next equals hequals =>
        apply Forward.of_reaches (Passes.of_skip? hequals).reaches
        apply (forward_readInteger equals _ _).bind
        exact fun found => .ok (.refl found.2)
  · exact .ok (.refl c)

theorem forward_readStyle : Forward Prod.snd c (readStyle c) := by
  have htext : Forward Prod.snd c (readStyleText c) := by
    unfold readStyleText
    split
    · exact .ok (reaches_advance _ c)
    · exact .fail (reaches_advance _ c)
  apply htext.bind
  rintro ⟨text, stop⟩
  simp only
  split
  · exact .fail (.refl stop)
  · exact .ok (.refl stop)

theorem forward_readOptionalStyle : Forward Prod.snd c (readOptionalStyle c) := by
  unfold readOptionalStyle
  simp only
  split
  · exact .ok (reaches_skipSpace c)
  · next comma hcomma =>
      apply Forward.of_reaches (reaches_style hcomma)
      apply (forward_readStyle _).bind
      exact fun found => .ok (.refl found.2)

theorem forward_numberStyle (o : ParseOptions) (text : List Char) (location : Location) :
    Forward (fun _ => c) c (numberStyle o text location c) := by
  unfold numberStyle
  repeat' split
  all_goals first | exact .ok (.refl c) | exact .fail (.refl c) | exact .failWith (.refl c)

theorem forward_dateTimeStyle (o : ParseOptions) (text : List Char)
    (location element : Location) :
    Forward (fun _ => c) c (dateTimeStyle o text location element c) := by
  unfold dateTimeStyle
  repeat' split
  all_goals first | exact .ok (.refl c) | exact .fail (.refl c) | exact .failWith (.refl c)

theorem forward_readNumber (o : ParseOptions) (name : String) (opening : Position) :
    Forward Prod.snd c (readNumber o name opening c) := by
  apply (forward_readOptionalStyle c).bind
  rintro ⟨style, styled⟩
  apply Forward.closeBrace.bind
  intro stop
  match style with
  | none => exact .ok (.refl stop)
  | some (text, location) =>
      apply (forward_numberStyle stop o text location).bind
      exact fun _ => .ok (.refl stop)

theorem forward_readDateTime (o : ParseOptions) (kind : DateTimeKind) (name : String)
    (opening : Position) : Forward Prod.snd c (readDateTime o kind name opening c) := by
  apply (forward_readOptionalStyle c).bind
  rintro ⟨style, styled⟩
  apply Forward.closeBrace.bind
  intro stop
  match style with
  | none => exact .ok (.refl stop)
  | some (text, location) =>
      apply (forward_dateTimeStyle stop o text location _).bind
      exact fun _ => .ok (.refl stop)

theorem forward_readClosingTag (name : String) (opening : Position) :
    Forward id c (readClosingTag name opening c) := by
  apply Forward.expect.bind
  intro slash
  simp only [id]
  split
  · exact .fail (.refl slash)
  apply Forward.of_reaches (reaches_tagName slash)
  split
  · exact .fail (.refl _)
  · exact .of_reaches (reaches_skipSpace _) .expect

end Readers

/-! ## Readers with nested text -/

/-- A reader of nested text that gives another answer at one place. -/
def NestedReader.answeringAt (inner : NestedReader) (s : Scope) (c : Cursor)
    (answer : Except Failure (List Element × Cursor)) : NestedReader :=
  fun s' c' => if s' = s ∧ c' = c then answer else inner s' c'

/-- A reader asks for the nested text at a place: whatever failure is put there comes
out of the reader. -/
def AsksFor {α : Type} (read : NestedReader → Except Failure α) (inner : NestedReader)
    (s : Scope) (c : Cursor) : Prop :=
  ∀ f, read (inner.answeringAt s c (.error f)) = .error f

/-- A reader that is not handed anything asks for nothing. -/
theorem not_asksFor_const {α : Type} (outcome : Except Failure α) (inner : NestedReader)
    (s : Scope) (c : Cursor) : ¬ AsksFor (fun _ => outcome) inner s c := by
  intro h
  have hfirst := h ⟨.emptyArgument, c.here, none, c.position⟩
  have hsecond := h ⟨.malformedArgument, c.here, none, c.position⟩
  simp only at hfirst hsecond
  rw [hfirst] at hsecond
  cases hsecond

/-- From the cursor on, a reader comes to an outcome ahead, or it asks for the
nested text at a cursor ahead and reads on from where that text ended. -/
inductive ReadsOn {α : Type} (stop : α → Cursor) :
    Cursor → (NestedReader → Except Failure α) → Prop
  | done {c : Cursor} {outcome : Except Failure α} (forward : Forward stop c outcome) :
      ReadsOn stop c fun _ => outcome
  | ask {c d : Cursor} {s : Scope}
      {next : List Element × Cursor → NestedReader → Except Failure α} (ahead : c.Reaches d)
      (rest : ∀ es e, d.Reaches e → ReadsOn stop e (next (es, e))) :
      ReadsOn stop c fun inner => inner s d >>= fun found => next found inner

namespace ReadsOn

variable {α β : Type} {stop : α → Cursor} {stop' : β → Cursor} {c d : Cursor}
  {read : NestedReader → Except Failure α}

theorem of_reaches (h : c.Reaches d) (hread : ReadsOn stop d read) : ReadsOn stop c read := by
  cases hread with
  | done forward => exact .done (.of_reaches h forward)
  | ask ahead rest => exact .ask (h.trans ahead) rest

/-- Asking for nested text is all that a reader may do with the one it is handed. -/
theorem nested (s : Scope) : ReadsOn Prod.snd c fun inner => inner s c := by
  have hbind : (fun inner : NestedReader => inner s c) =
      fun inner => inner s c >>= fun found => .ok found := by
    funext inner
    cases inner s c <;> rfl
  rw [hbind]
  exact .ask (.refl c) fun es e _ => .done (.ok (.refl e))

/-- Of two steps the second reads on where the first stopped. -/
theorem bind {next : α → NestedReader → Except Failure β} (hread : ReadsOn stop c read)
    (hnext : ∀ a, ReadsOn stop' (stop a) (next a)) :
    ReadsOn stop' c fun inner => read inner >>= fun a => next a inner := by
  induction hread with
  | @done c outcome forward =>
      cases outcome with
      | error f =>
          obtain ⟨d, hd, hposition⟩ := forward.stops f rfl
          exact .done (.error hd hposition)
      | ok a => exact .of_reaches (forward.reaches a rfl) (hnext a)
  | ask ahead rest ih =>
      simp only [bind_assoc]
      exact .ask ahead ih

theorem map {f : α → β} (hread : ReadsOn stop c read) (hf : ∀ a, stop' (f a) = stop a) :
    ReadsOn stop' c fun inner => f <$> read inner :=
  hread.bind fun a => .done (.ok (hf a ▸ .refl (stop a)))

/-- A reader goes forward if the reader of nested text does. -/
theorem forward (hread : ReadsOn stop c read) {inner : NestedReader}
    (hinner : ∀ s c, Forward Prod.snd c (inner s c)) : Forward stop c (read inner) := by
  induction hread with
  | done forward => exact forward
  | @ask c d s next ahead rest ih =>
      apply Forward.of_reaches ahead
      have hfound := hinner s d
      show Forward stop d (inner s d >>= fun found => next found inner)
      cases hnested : inner s d with
      | error f =>
          obtain ⟨e, he, hposition⟩ := hfound.stops f hnested
          exact .error he hposition
      | ok found =>
          have hreaches := hfound.reaches found hnested
          exact .of_reaches hreaches (ih found.1 found.2 hreaches)

/-- A reader asks for the nested text at a place ahead, or it makes no difference what
stands there. -/
theorem asksFor_or_eq (hread : ReadsOn stop c read) {inner : NestedReader}
    (hinner : ∀ s c, Forward Prod.snd c (inner s c)) (s : Scope) (d : Cursor) :
    (c.Reaches d ∧ AsksFor read inner s d) ∨
      ∀ answer, read (inner.answeringAt s d answer) = read inner := by
  induction hread with
  | done forward => exact .inr fun _ => rfl
  | @ask c d' s' next ahead rest ih =>
      by_cases hplace : s' = s ∧ d' = d
      · obtain ⟨rfl, rfl⟩ := hplace
        refine .inl ⟨ahead, fun f => ?_⟩
        have hanswer : inner.answeringAt s' d' (.error f) s' d' = .error f := if_pos ⟨rfl, rfl⟩
        simp only [hanswer]
        rfl
      -- The first question is answered as before.
      have hanswer (answer : Except Failure (List Element × Cursor)) :
          inner.answeringAt s d answer s' d' = inner s' d' := if_neg hplace
      cases hnested : inner s' d' with
      | error f =>
          refine .inr fun answer => ?_
          simp only [hanswer, hnested]
          rfl
      | ok found =>
          have hreaches := (hinner s' d').reaches found hnested
          rcases ih found.1 found.2 hreaches with ⟨hahead, hasks⟩ | hsame
          · refine .inl ⟨(ahead.trans hreaches).trans hahead, fun f => ?_⟩
            simp only [hanswer, hnested]
            exact hasks f
          · refine .inr fun answer => ?_
            simp only [hanswer, hnested]
            exact hsame answer

/-- What a reader asks for is ahead of its cursor. -/
theorem reaches_of_asksFor (hread : ReadsOn stop c read) {inner : NestedReader}
    (hinner : ∀ s c, Forward Prod.snd c (inner s c)) {s : Scope} {d : Cursor}
    (h : AsksFor read inner s d) : c.Reaches d := by
  rcases hread.asksFor_or_eq hinner s d with ⟨hahead, -⟩ | hsame
  · exact hahead
  · have hconst : AsksFor (fun _ => read inner) inner s d := fun f => (hsame _).symm.trans (h f)
    exact absurd hconst (not_asksFor_const _ inner s d)

end ReadsOn

section Nested

variable (o : ParseOptions) (s : Scope)

theorem readsOn_readFragment (plural : Bool) (selector : String) (c : Cursor) :
    ReadsOn Prod.snd c fun inner => readFragment inner s plural selector c := by
  apply ReadsOn.of_reaches (reaches_skipSpace c)
  apply (ReadsOn.done Forward.expect).bind
  intro body
  apply (ReadsOn.nested _).bind
  rintro ⟨value, closing⟩
  apply (ReadsOn.done Forward.closeBrace).bind
  exact fun after => .done (.ok (reaches_skipSpace after))

theorem readsOn_readBranches (plural : Bool) (bound : Nat) (seen : List String) (c : Cursor) :
    ReadsOn Prod.snd c fun inner => readBranches inner s plural bound seen c := by
  induction bound generalizing seen c with
  | zero => exact .done (.ok (.refl c))
  | succ bound ih =>
      apply (ReadsOn.done (forward_readSelector c plural)).bind
      intro found
      match found with
      | none => exact .done (.ok (.refl c))
      | some (selector, d) =>
          by_cases hseen : selector ∈ seen
          · simp only [if_pos hseen]
            exact .done (.fail (.refl d))
          · simp only [if_neg hseen]
            apply (readsOn_readFragment s plural selector d).bind
            rintro ⟨branch, next⟩
            apply (ih _ next).bind
            exact fun branches => .done (.ok (.refl branches.2))

theorem readsOn_readAllBranches (plural : Bool) (c : Cursor) :
    ReadsOn Prod.snd c fun inner => readAllBranches inner o s plural c := by
  apply (readsOn_readBranches s plural _ [] c).bind
  rintro ⟨branches, last⟩
  apply ReadsOn.done
  simp only
  split
  · exact .fail (.refl last)
  split
  · exact .fail (.refl last)
  · exact .ok (.refl last)

theorem readsOn_readSelectorArgument (plural : Option PluralType) (name : String)
    (opening : Position) (c : Cursor) :
    ReadsOn Prod.snd c fun inner => readSelectorArgument inner o s plural name opening c := by
  apply ReadsOn.of_reaches (reaches_skipSpace c)
  apply (ReadsOn.done Forward.expect).bind
  intro comma
  apply ReadsOn.of_reaches (reaches_skipSpace comma)
  apply (ReadsOn.done (forward_readOffset _ _)).bind
  rintro ⟨offset, first⟩
  apply (readsOn_readAllBranches o s _ first).bind
  rintro ⟨branches, last⟩
  apply (ReadsOn.done Forward.closeBrace).bind
  exact fun stop => .done (.ok (.refl stop))

theorem readsOn_readTypedArgument (name : String) (opening : Position) (c : Cursor) :
    ReadsOn Prod.snd c fun inner => readTypedArgument inner o s name opening c := by
  apply ReadsOn.of_reaches (reaches_identifier c)
  by_cases hword : c.identifier.1 = ""
  · simp only [readTypedArgument, if_pos hword]
    exact .done (.fail (.refl _))
  simp only [readTypedArgument, if_neg hword]
  cases argumentTypes.lookup c.identifier.1 with
  | none => exact .done (.fail (.refl _))
  | some type =>
      cases type with
      | number => exact .done (forward_readNumber _ o name opening)
      | dateTime kind => exact .done (forward_readDateTime _ o kind name opening)
      | selector plural => exact readsOn_readSelectorArgument o s plural name opening _

theorem readsOn_readArgumentTail (name : String) (opening : Position) (c : Cursor) :
    ReadsOn Prod.snd c fun inner => readArgumentTail inner o s name opening c := by
  cases hrest : c.rest with
  | nil =>
      simp only [readArgumentTail, hrest]
      exact .done (.fail (.refl c))
  | cons ch text =>
      by_cases hclose : ch = '}'
      · simp only [readArgumentTail, hrest, if_pos hclose]
        exact .done (.ok (reaches_bump c))
      by_cases hcomma : ch = ','
      · have htyped := (reaches_bump c).trans (reaches_skipSpace c.bump)
        by_cases hempty : c.bump.skipSpace.rest.isEmpty
        · simp only [readArgumentTail, hrest, if_neg hclose, if_pos hcomma, if_pos hempty]
          exact .done (.fail htyped)
        · simp only [readArgumentTail, hrest, if_neg hclose, if_pos hcomma, if_neg hempty]
          exact .of_reaches htyped (readsOn_readTypedArgument o s name opening _)
      · simp only [readArgumentTail, hrest, if_neg hclose, if_neg hcomma]
        exact .done (.fail (.refl c))

/-- An argument is read from behind its opening brace on. -/
theorem readsOn_readArgument (c : Cursor) :
    ReadsOn Prod.snd c.bump fun inner => readArgument inner o s c := by
  apply ReadsOn.of_reaches (reaches_skipSpace c.bump)
  cases hrest : c.bump.skipSpace.rest with
  | nil =>
      simp only [readArgument, hrest]
      exact .done (.fail (.refl _))
  | cons ch text =>
      by_cases hclose : ch = '}'
      · simp only [readArgument, hrest, if_pos hclose]
        exact .done (.fail (reaches_bump _))
      by_cases hname : c.bump.skipSpace.identifier.1 = ""
      · simp only [readArgument, hrest, if_neg hclose, if_pos hname]
        exact .done (.fail (reaches_identifier _))
      · simp only [readArgument, hrest, if_neg hclose, if_neg hname]
        apply ReadsOn.of_reaches ((reaches_identifier _).trans (reaches_skipSpace _))
        exact readsOn_readArgumentTail o s _ c.position _

/-- A tag is read from behind its angle bracket on. -/
theorem readsOn_readTag (c : Cursor) :
    ReadsOn Prod.snd c.bump fun inner => readTag inner s c := by
  apply ReadsOn.of_reaches ((reaches_tagName c.bump).trans (reaches_skipSpace _))
  cases hclosed : c.bump.tagName.2.skipSpace.skip? ['/', '>'] with
  | some d =>
      simp only [readTag, hclosed]
      exact .done (.ok (Passes.of_skip? hclosed).reaches)
  | none =>
      simp only [readTag, hclosed]
      apply (ReadsOn.done Forward.expect).bind
      intro body
      apply (ReadsOn.nested _).bind
      rintro ⟨children, closing⟩
      apply (ReadsOn.done (forward_readClosingTag _ _ _)).bind
      exact fun stop => .done (.ok (.refl stop))

/-- One turn of the loop over a text needs no nested text, or all of it happens
behind a scalar that is passed first. -/
theorem readElement_cases (c : Cursor) :
    (∃ outcome, Forward c.behind c outcome ∧ ∀ inner, readElement inner o s c = outcome) ∨
      (c.rest ≠ [] ∧ ReadsOn c.behind c.bump fun inner => readElement inner o s c) := by
  cases hrest : c.rest with
  | nil => exact .inl ⟨.ok none, .ok (.refl c), fun inner => by simp [readElement, hrest]⟩
  | cons ch text =>
      have hne : ch :: text ≠ [] := by simp
      by_cases hbrace : ch = '{'
      · refine .inr ⟨hne, ?_⟩
        simp only [readElement, hrest, if_pos hbrace]
        exact (readsOn_readArgument o s c).map fun _ => rfl
      by_cases hclose : ch = '}' ∧ s.nested
      · refine .inl ⟨.ok none, .ok (.refl c), fun inner => ?_⟩
        simp only [readElement, hrest, if_neg hbrace, if_pos hclose]
      by_cases hsign : ch = '#' ∧ s.plural
      · refine .inl ⟨.ok (some (.pound (c.bump.since c.position), c.bump)), .ok (reaches_bump c),
          fun inner => ?_⟩
        simp only [readElement, hrest, if_neg hbrace, if_neg hclose, if_pos hsign]
      by_cases hslash : ch = '<' ∧ !o.ignoreTag ∧ text.head? = some '/'
      · by_cases hinTag : s.inTag
        · refine .inl ⟨.ok none, .ok (.refl c), fun inner => ?_⟩
          simp only [readElement, hrest, if_neg hbrace, if_neg hclose, if_neg hsign,
            if_pos hslash, if_pos hinTag]
        · refine .inl ⟨c.fail .unmatchedClosingTag c.here, .fail (.refl c), fun inner => ?_⟩
          simp only [readElement, hrest, if_neg hbrace, if_neg hclose, if_neg hsign,
            if_pos hslash]
          exact if_neg hinTag
      by_cases hletter : ch = '<' ∧ !o.ignoreTag ∧ text.head?.any isTagLetter
      · refine .inr ⟨hne, ?_⟩
        simp only [readElement, hrest, if_neg hbrace, if_neg hclose, if_neg hsign, if_neg hslash,
          if_pos hletter]
        exact (readsOn_readTag s c).map fun _ => rfl
      · refine .inl ⟨.ok (some (readLiteral o s c)), .ok (reaches_advance _ c), fun inner => ?_⟩
        simp only [readElement, hrest, if_neg hbrace, if_neg hclose, if_neg hsign, if_neg hslash,
          if_neg hletter]

theorem readsOn_readElement (c : Cursor) :
    ReadsOn c.behind c fun inner => readElement inner o s c := by
  rcases readElement_cases o s c with ⟨outcome, hforward, houtcome⟩ | ⟨-, hread⟩
  · simp only [houtcome]
    exact .done hforward
  · exact .of_reaches (reaches_bump c) hread

theorem readsOn_readElements (bound : Nat) (c : Cursor) :
    ReadsOn Prod.snd c fun inner => readElements inner o s bound c := by
  induction bound generalizing c with
  | zero => exact .done (.ok (.refl c))
  | succ bound ih =>
      apply (readsOn_readElement o s c).bind
      intro found
      match found with
      | none => exact .done (.ok (.refl c))
      | some (e, d) =>
          apply (ih d).bind
          exact fun rest => .done (.ok (.refl rest.2))

end Nested

/-- Reading nested text goes forward, also where it fails. -/
theorem forward_readMessage (o : ParseOptions) (budget : Nat) (s : Scope) (c : Cursor) :
    Forward Prod.snd c (readMessage o budget s c) := by
  induction budget generalizing s c with
  | zero => exact .fail (.refl c)
  | succ budget ih => exact (readsOn_readElements o s _ c).forward ih

end MessagePattern
