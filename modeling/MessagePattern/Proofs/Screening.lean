/-
# Stricter readings

Some options ask more of a message than others.  Reading with them takes the same
way through the message and may end early: at the first of the checkpoints that
the laxer reading comes past which does not have what they ask for.  If every such
checkpoint has it, both readings fail alike or give the same tree, with the
meanings that the stricter options ask for.

`Screened` says this of one reader under two sets of options, of which the laxer
keeps a log.  So it says of a reading that fails as much as of one that succeeds.
It is kept when readers are joined, so there is one lemma for each reader, and
nested text comes in as a hypothesis.  The last lemmas say the same of whole
messages.
-/

import MessagePattern.Proofs.DateTimePattern
import MessagePattern.Proofs.LoggedReading
import MessagePattern.Proofs.Relocation

namespace MessagePattern

open Cursor

/-- The first options ask nothing of a message that the second do not ask as
well, and both take the same things for tags. -/
structure ParseOptions.Laxer (o o' : ParseOptions) : Prop where
  tags : o'.ignoreTag = o.ignoreTag
  depth : o'.maxNestingDepth ≤ o.maxNestingDepth
  skeletons : o.shouldParseSkeletons = true → o'.shouldParseSkeletons = true
  other : o.requiresOtherClause = true → o'.requiresOtherClause = true

theorem ParseOptions.Laxer.refl (o : ParseOptions) : o.Laxer o :=
  ⟨rfl, Nat.le_refl _, id, id⟩

/-! ## What is reported of a checkpoint -/

/-- The skeleton is what the message says at its location. -/
def Skeleton.WrittenIn (message : String) (k : Skeleton) : Prop :=
  ∃ text, skeletonText? (trimEnd (k.location.slice message).toList) = some text ∧
    match k with
    | .number k => NumberSkeleton.tokenize text = .ok k.tokens
    | .dateTime k => k.pattern = String.ofList text

/-- The error by which a message is refused at a checkpoint. -/
def Checkpoint.Reports (message : String) (e : ParseError) : Checkpoint → Prop
  | .text _ => e.kind = .exceededMaxNestingDepth
  | .skeleton k =>
    k.WrittenIn message ∧ ∃ fault, k.fault? = some fault ∧
      e = ⟨.other, message, k.location, some (.skeleton fault)⟩
  | .branches _ => e.kind = .missingOtherClause

theorem find?_eq_none_of_passes {o : ParseOptions} {points : List Checkpoint}
    (h : ∀ p ∈ points, p.passes o = true) : points.find? (!·.passes o) = none := by
  rw [List.find?_eq_none]
  intro p hp
  simp [h p hp]

/-- The checkpoint has what the first options ask for, but not what the second
do, and the error says so. -/
structure Checkpoint.Refused (message : String) (o o' : ParseOptions) (p : Checkpoint)
    (e : ParseError) : Prop where
  lax : p.passes o = true
  strict : p.passes o' = false
  reported : p.Reports message e

/-! ## Two outcomes of one reader -/

/-- How the outcome under strict options `o'` follows from the logged reading under
lax options `o`, when `result` is what the strict options make of what was read. -/
inductive Screened (message : String) (o o' : ParseOptions) {α β : Type} (result : α → β)
    (lax : Logged α) : Except Failure β → Prop
  /-- Every checkpoint has what is asked for, and the outcome is the same. -/
  | passed (all : ∀ p ∈ lax.log, p.passes o' = true) :
      Screened message o o' result lax (result <$> lax.outcome)
  /-- Reading ends at the first checkpoint that has not, whatever stands behind it. -/
  | refused {p : Checkpoint} {f : Failure} (first : lax.log.find? (!·.passes o') = some p)
      (why : p.Refused message o o' (f.toError message)) :
      Screened message o o' result lax (.error f)

namespace Screened

variable {message : String} {o o' : ParseOptions} {α β γ δ : Type}
  {result : α → β} {result' : γ → δ}

theorem ok {a : α} {b : β} (h : b = result a) :
    Screened message o o' result (pure a) (.ok b) := by
  rw [h]
  exact .passed (List.forall_mem_nil _)

/-- What is wrong under both is found by both. -/
theorem failed (f : Failure) :
    Screened message o o' result (liftM (.error f : Except Failure α)) (.error f) :=
  .passed (List.forall_mem_nil _)

/-- Checkpoints that have what is asked for make no difference. -/
theorem prepend (before : List Checkpoint) (hpass : ∀ p ∈ before, p.passes o' = true)
    {x : Logged α} {y : Except Failure β} (h : Screened message o o' result x y) :
    Screened message o o' result ⟨before ++ x.log, x.outcome⟩ y := by
  cases h with
  | passed all => exact .passed (List.forall_mem_append.mpr ⟨hpass, all⟩)
  | refused first why =>
      refine .refused ?_ why
      rw [List.find?_append, find?_eq_none_of_passes hpass, first]
      rfl

theorem past {p : Checkpoint} (hp : p.passes o' = true) {x : Logged α} {y : Except Failure β}
    (h : Screened message o o' result x y) :
    Screened message o o' result (do Logged.past p; x) y :=
  h.prepend [p] (List.forall_mem_singleton.mpr hp)

/-- At a checkpoint that has not what is asked for, reading ends. -/
theorem refused_at {p : Checkpoint} {f : Failure}
    (why : p.Refused message o o' (f.toError message)) (x : Logged α) :
    Screened message o o' result (do Logged.past p; x) (.error f) :=
  .refused (List.find?_cons_of_pos (by simp [why.strict])) why

/-- Two steps one after the other. -/
theorem bind {x : Logged α} {y : Except Failure β} {next : α → Logged γ}
    {next' : β → Except Failure δ} (hx : Screened message o o' result x y)
    (hnext : ∀ a, x.outcome = .ok a →
      Screened message o o' result' (next a) (next' (result a))) :
    Screened message o o' result' (x >>= next) (y >>= next') := by
  obtain ⟨log, outcome⟩ := x
  cases outcome with
  | error f =>
      cases hx with
      | passed all => exact .passed all
      | refused first why => exact .refused first why
  | ok a =>
      cases hx with
      | passed all => exact (hnext a rfl).prepend log all
      | refused first why =>
          refine .refused ?_ why
          change List.find? _ (log ++ (next a).log) = _
          rw [List.find?_append, first]
          rfl

/-- A step that asks nothing leads to the same place under both. -/
theorem bind_same {x : Except Failure γ} {next : γ → Logged α} {next' : γ → Except Failure β}
    (h : ∀ c, x = .ok c → Screened message o o' result (next c) (next' c)) :
    Screened message o o' result (liftM x >>= next) (x >>= next') := by
  cases x with
  | error f => exact .failed f
  | ok c => exact h c rfl

/-- Putting together what was read asks nothing more. -/
theorem map {x : Logged α} {y : Except Failure β} {f : α → γ} {f' : β → δ}
    (hx : Screened message o o' result x y) (hresult : ∀ a, f' (result a) = result' (f a)) :
    Screened message o o' result' (f <$> x) (f' <$> y) := by
  apply hx.bind
  intro a _
  exact .ok (hresult a)

/-- What is noted of the last step is noted of the whole. -/
theorem noting_bind {points : α → List Checkpoint} {x : Except Failure γ}
    {next : γ → Except Failure α} {next' : γ → Except Failure β}
    (h : ∀ c, x = .ok c → Screened message o o' result (.noting points (next c)) (next' c)) :
    Screened message o o' result (.noting points (x >>= next)) (x >>= next') := by
  cases x with
  | error f => exact .failed f
  | ok c => exact h c rfl

theorem noting_map {points : α → List Checkpoint} {points' : γ → List Checkpoint}
    {x : Except Failure α} {y : Except Failure β} {f : α → γ} {f' : β → δ}
    (hx : Screened message o o' result (.noting points x) y)
    (hpoints : ∀ a, points' (f a) = points a) (hresult : ∀ a, f' (result a) = result' (f a)) :
    Screened message o o' result' (.noting points' (f <$> x)) (f' <$> y) := by
  have hsame : Logged.noting points' (f <$> x) = f <$> Logged.noting points x := by
    cases x with
    | error e => rfl
    | ok a => exact congrArg (Logged.mk · (.ok (f a))) ((hpoints a).trans (List.append_nil _).symm)
  rw [hsame]
  exact hx.map hresult

end Screened

/-- The two ways to read an element. -/
abbrev ElementScreened (message : String) (o o' : ParseOptions) :
    Logged (Element × Cursor) → Except Failure (Element × Cursor) → Prop :=
  Screened message o o' fun r => (r.1.withMeanings o'.shouldParseSkeletons, r.2)

/-- The two ways to read a text. -/
abbrev TextScreened (message : String) (o o' : ParseOptions) :
    Logged (List Element × Cursor) → Except Failure (List Element × Cursor) → Prop :=
  Screened message o o' fun r => (withMeanings o'.shouldParseSkeletons r.1, r.2)

/-! ## Literals -/

theorem endsLiteral_congr {o o' : ParseOptions} (h : o'.ignoreTag = o.ignoreTag) (s : Scope)
    (c : Char) (text : List Char) :
    Scope.endsLiteral o' s c text = Scope.endsLiteral o s c text := by
  simp only [Scope.endsLiteral, h]

/-- Of the options, literal text depends on what they take for tags only. -/
theorem literalText_congr {o o' : ParseOptions} (h : o'.ignoreTag = o.ignoreTag) (s : Scope)
    (quoted : Bool) (text : List Char) :
    literalText o' s quoted text = literalText o s quoted text := by
  fun_induction literalText o s quoted text <;> simp_all [literalText, endsLiteral_congr h]

theorem readLiteral_congr {o o' : ParseOptions} (h : o'.ignoreTag = o.ignoreTag) (s : Scope)
    (c : Cursor) : readLiteral o' s c = readLiteral o s c := by
  simp only [readLiteral, literalText_congr h]

/-! ## Styles -/

/-- A style as it stands in a message: white space behind it is part of the
location, and everything opened in it is closed. -/
def StyleIn (message : List Char) (text : List Char) (location : Location) : Prop :=
  ∃ raw, Spans message location.start raw location.stop ∧ text = trimEnd raw ∧
    styleMatches 0 false raw = true

theorem styleIn_of_read {message text : List Char} {location : Location} {c styled d : Cursor}
    {opening : Position} (hin : c.IsIn message)
    (h : readOptionalStyle c = .ok (some (text, location), styled))
    (hclosed : styled.closeBrace opening = .ok d) : StyleIn message text location := by
  rcases readOptionalStyle_cases h with ⟨hnone, -⟩ | ⟨_, _, comma, hsome, hcomma, hstyle⟩
  · cases hnone
  · cases hsome
    have hstop := (Passes.of_closeBrace hclosed).rest
    obtain ⟨raw, hraw, htext, -, hmatch, hreaches⟩ := readStyle_eq_ok hstyle ⟨_, hstop⟩
    obtain ⟨passed, hpasses⟩ := hreaches.passes
    have hsame : passed = raw := List.append_cancel_right (hpasses.rest.symm.trans hraw)
    refine ⟨raw, ?_, htext, hmatch⟩
    rw [(readStyle_located hstyle).2, ← hsame]
    exact hpasses.spans ((reaches_style hcomma).isIn hin)

/-- What a style is the text of can be cut out of the message. -/
theorem StyleIn.trimEnd_slice {message : String} {text : List Char} {location : Location}
    (h : StyleIn message.toList text location) :
    trimEnd (location.slice message).toList = text := by
  obtain ⟨raw, hspans, rfl, -⟩ := h
  rw [hspans.slice_eq, String.toList_ofList]

/-- The skeleton of a date or time is refused only for a field of it. -/
theorem StyleIn.dateTimeErrorKind_eq {message text skeleton : List Char} {location : Location}
    {e : SkeletonError} (h : StyleIn message text location)
    (hskeleton : skeletonText? text = some skeleton)
    (he : DateTimeSkeleton.interpret skeleton = .error e) : dateTimeErrorKind e = .other := by
  obtain ⟨raw, -, rfl, hmatch⟩ := h
  obtain ⟨inner, hinner, rfl⟩ := skeletonText?_eq_some hskeleton
  obtain ⟨letter, group, rfl⟩ :=
    DateTimeSkeleton.interpret_eq_error (styleMatches_skeleton hmatch hinner) he
  rfl

/-- The style of a skeleton that is read, with its meaning if that is asked for. -/
def skeletonStyle {σ μ : Type} (asked : Bool) (build : Option μ → σ)
    (meaning : Except SkeletonError μ) (kind : SkeletonError → ErrorKind) (location : Location)
    (c : Cursor) : Except Failure (Style σ) :=
  if asked then
    match meaning with
    | .error e => c.failWith (kind e) location e
    | .ok options => .ok (.skeleton (build (some options)))
  else .ok (.skeleton (build none))

theorem numberStyle_of_tokens {text skeleton : List Char} {tokens : List NumberToken}
    (hskeleton : skeletonText? text = some skeleton) (hne : ¬ skeleton.isEmpty = true)
    (htokens : NumberSkeleton.tokenize skeleton = .ok tokens) (o : ParseOptions)
    (location : Location) (c : Cursor) :
    numberStyle o text location c =
      skeletonStyle o.shouldParseSkeletons
        (fun parsed => (⟨tokens, location, parsed⟩ : NumberSkeleton))
        (NumberSkeleton.interpret tokens) (fun _ => .other) location c := by
  simp only [numberStyle, hskeleton, if_neg hne, htokens, skeletonStyle]
  cases NumberSkeleton.interpret tokens <;> rfl

theorem dateTimeStyle_of_skeleton {text skeleton : List Char}
    (hskeleton : skeletonText? text = some skeleton) (hne : ¬ skeleton.isEmpty = true)
    (o : ParseOptions) (location element : Location) (c : Cursor) :
    dateTimeStyle o text location element c =
      skeletonStyle o.shouldParseSkeletons
        (fun parsed => (⟨String.ofList skeleton, location, parsed⟩ : DateTimeSkeleton))
        (DateTimeSkeleton.interpret skeleton) dateTimeErrorKind location c := by
  simp only [dateTimeStyle, hskeleton, if_neg hne, skeletonStyle]
  cases DateTimeSkeleton.interpret skeleton <;> rfl

section Readers

variable {message : String} {o o' : ParseOptions} (h : o.Laxer o')

include h

/-- Asking for the meaning of a skeleton ends the reading if there is none. -/
theorem screened_skeletonStyle {σ μ : Type} (wrap : σ → Skeleton) {withMeaning : σ → σ}
    {build : Option μ → σ} {meaning : Except SkeletonError μ} {kind : SkeletonError → ErrorKind}
    {location : Location} (c : Cursor)
    (hbuild : ∀ parsed, withMeaning (build parsed) =
      build (if o'.shouldParseSkeletons then meaning.toOption else none))
    (hfault : ∀ parsed, (wrap (build parsed)).fault? = refusal? meaning)
    (hlocation : ∀ parsed, (wrap (build parsed)).location = location)
    (hwritten : ∀ parsed, (wrap (build parsed)).WrittenIn message)
    (hkind : ∀ e, meaning = .error e → kind e = .other) :
    Screened message o o' (Style.map withMeaning)
      (.noting (styleCheckpoints wrap)
        (skeletonStyle o.shouldParseSkeletons build meaning kind location c))
      (skeletonStyle o'.shouldParseSkeletons build meaning kind location c) := by
  have hmade {parsed strict : Option μ}
      (hstrict : strict = if o'.shouldParseSkeletons then meaning.toOption else none)
      (hpass : (!o'.shouldParseSkeletons || (refusal? meaning).isNone) = true) :
      Screened message o o' (Style.map withMeaning)
        (.noting (styleCheckpoints wrap) (.ok (.skeleton (build parsed))))
        (.ok (.skeleton (build strict))) := by
    refine .past ?_ (.ok ?_)
    · simpa only [Checkpoint.passes, hfault] using hpass
    · rw [Style.map, hbuild, hstrict]
  cases meaning with
  | ok options =>
      cases hstrict : o'.shouldParseSkeletons with
      | true =>
          cases o.shouldParseSkeletons <;>
            exact hmade (by simp [hstrict, Except.toOption]) (by simp [refusal?])
      | false =>
          have hlax : o.shouldParseSkeletons = false :=
            Bool.eq_false_iff.mpr fun hlax => Bool.eq_false_iff.mp hstrict (h.skeletons hlax)
          rw [hlax]
          exact hmade (by simp [hstrict]) (by simp [hstrict])
  | error e =>
      cases hlax : o.shouldParseSkeletons with
      | true =>
          rw [h.skeletons hlax]
          exact .failed _
      | false =>
          cases hstrict : o'.shouldParseSkeletons with
          | false => exact hmade (by simp [hstrict]) (by simp [hstrict])
          | true =>
              refine .refused_at ⟨?_, ?_, ?_⟩ (pure (Style.skeleton (build none)))
              · simp [Checkpoint.passes, hlax]
              · simp [Checkpoint.passes, hstrict, hfault, refusal?]
              · refine ⟨hwritten none, e, hfault none, ?_⟩
                rw [hkind e rfl, hlocation none]
                rfl

theorem screened_numberStyle {text : List Char} {location : Location}
    (hstyle : StyleIn message.toList text location) (c : Cursor) :
    Screened message o o' (Style.map (NumberSkeleton.withMeaning o'.shouldParseSkeletons))
      (.noting (styleCheckpoints .number) (numberStyle o text location c))
      (numberStyle o' text location c) := by
  cases hskeleton : skeletonText? text with
  | none =>
      simp only [numberStyle, hskeleton]
      exact .ok rfl
  | some skeleton =>
      by_cases hempty : skeleton.isEmpty = true
      · simp only [numberStyle, hskeleton, if_pos hempty]
        exact .failed _
      cases htokens : NumberSkeleton.tokenize skeleton with
      | error e =>
          simp only [numberStyle, hskeleton, if_neg hempty, htokens]
          exact .failed _
      | ok tokens =>
          simp only [numberStyle_of_tokens hskeleton hempty htokens]
          apply screened_skeletonStyle h .number c
          · exact fun _ => rfl
          · exact fun _ => rfl
          · exact fun _ => rfl
          · exact fun _ => ⟨skeleton, hstyle.trimEnd_slice.symm ▸ hskeleton, htokens⟩
          · exact fun _ _ => rfl

theorem screened_dateTimeStyle {text : List Char} {location : Location}
    (hstyle : StyleIn message.toList text location) (element : Location) (c : Cursor) :
    Screened message o o' (Style.map (DateTimeSkeleton.withMeaning o'.shouldParseSkeletons))
      (.noting (styleCheckpoints .dateTime) (dateTimeStyle o text location element c))
      (dateTimeStyle o' text location element c) := by
  cases hskeleton : skeletonText? text with
  | none =>
      simp only [dateTimeStyle, hskeleton]
      exact .ok rfl
  | some skeleton =>
      by_cases hempty : skeleton.isEmpty = true
      · simp only [dateTimeStyle, hskeleton, if_pos hempty]
        exact .failed _
      simp only [dateTimeStyle_of_skeleton hskeleton hempty]
      apply screened_skeletonStyle h .dateTime c
      · exact fun _ => by simp [DateTimeSkeleton.withMeaning]
      · exact fun _ => by simp [Skeleton.fault?]
      · exact fun _ => rfl
      · exact fun _ => ⟨skeleton, hstyle.trimEnd_slice.symm ▸ hskeleton, rfl⟩
      · exact fun e he => hstyle.dateTimeErrorKind_eq hskeleton he

variable {c : Cursor} (hin : c.IsIn message.toList)

include hin

theorem screened_readNumber (level : Nat) (name : String) (opening : Position) :
    ElementScreened message o o'
      (.noting (·.1.checkpoints level) (readNumber o name opening c))
      (readNumber o' name opening c) := by
  apply Screened.noting_bind
  rintro ⟨style?, styled⟩ hstyle
  apply Screened.noting_bind
  intro d hd
  match style? with
  | none => exact .ok rfl
  | some (text, location) =>
      apply (screened_numberStyle h (styleIn_of_read hin hstyle hd) d).noting_map
      · exact fun style => List.append_nil _
      · exact fun style => rfl

theorem screened_readDateTime (level : Nat) (kind : DateTimeKind) (name : String)
    (opening : Position) :
    ElementScreened message o o'
      (.noting (·.1.checkpoints level) (readDateTime o kind name opening c))
      (readDateTime o' kind name opening c) := by
  apply Screened.noting_bind
  rintro ⟨style?, styled⟩ hstyle
  apply Screened.noting_bind
  intro d hd
  match style? with
  | none => exact .ok rfl
  | some (text, location) =>
      apply (screened_dateTimeStyle h (styleIn_of_read hin hstyle hd) _ d).noting_map
      · exact fun style => List.append_nil _
      · exact fun style => rfl

end Readers

/-! ## Readers with nested text -/

section Nested

variable {message : String} {o o' : ParseOptions} (h : o.Laxer o') {level : Nat}
  {inner : LoggedReader} {plain inner' : NestedReader}
  (hlogs : ∀ s c, Logs (fun r => .text (level + 1) :: checkpoints (level + 1) r.1)
    (inner s c) (plain s c))
  (hinner : ∀ s c, c.IsIn message.toList → TextScreened message o o' (inner s c) (inner' s c))
  (hreach : ∀ {s c es d}, plain.Gives s c es d → c.Reaches d) {c : Cursor}

include hinner

theorem screened_readFragment (s : Scope) (plural : Bool) (selector : String)
    (hin : c.IsIn message.toList) :
    Screened message o o'
      (fun r => (⟨r.1.selector, withMeanings o'.shouldParseSkeletons r.1.value, r.1.location⟩, r.2))
      (logFragment inner s plural selector c) (readFragment inner' s plural selector c) := by
  apply Screened.bind_same
  intro body hbody
  have hbody := ((reaches_skipSpace c).trans (.of_expect hbody)).isIn hin
  apply (hinner _ body hbody).bind
  rintro ⟨value, stop⟩ -
  exact .bind_same fun d _ => .ok rfl

include hlogs hreach

theorem screened_readBranches (s : Scope) (plural : Bool) (bound : Nat) (seen : List String)
    (hin : c.IsIn message.toList) :
    Screened message o o' (fun r => (branchesWithMeanings o'.shouldParseSkeletons r.1, r.2))
      (logBranches inner s plural bound seen c) (readBranches inner' s plural bound seen c) := by
  induction bound generalizing seen c with
  | zero => exact .ok rfl
  | succ bound ih =>
      apply Screened.bind_same
      intro found hfound
      match found with
      | none => exact .ok rfl
      | some (selector, d) =>
          have hd := (reaches_of_readSelector hfound).isIn hin
          simp only
          split
          · exact .failed _
          · apply (screened_readFragment hinner s plural selector hd).bind
            rintro ⟨branch, next⟩ hbranch
            rw [(logs_readFragment hlogs s plural selector d).outcome] at hbranch
            exact (ih _ ((reaches_of_readFragment hreach hbranch).isIn hd)).map fun _ => rfl

include h

theorem screened_readAllBranches (s : Scope) (plural : Bool) (hin : c.IsIn message.toList) :
    Screened message o o' (fun r => (branchesWithMeanings o'.shouldParseSkeletons r.1, r.2))
      (logAllBranches inner o s plural c) (readAllBranches inner' o' s plural c) := by
  apply (screened_readBranches hlogs hinner hreach s plural c.rest.length [] hin).bind
  rintro ⟨branches, stop⟩ -
  simp only [map_selector_branchesWithMeanings, isEmpty_branchesWithMeanings]
  split
  · exact .failed _
  by_cases hother : "other" ∈ branches.map Branch.selector
  · simp only [hother, not_true_eq_false, and_false, if_false]
    exact .past (by simp [Checkpoint.passes, hother]) (.ok rfl)
  simp only [hother, not_false_eq_true, and_true]
  split
  · next hlax =>
      rw [if_pos (h.other hlax)]
      exact .failed _
  · next hlax =>
      split
      · next hstrict =>
          apply Screened.refused_at
          refine ⟨?_, ?_, rfl⟩
          · simp [Checkpoint.passes, hlax]
          · simp [Checkpoint.passes, hstrict, hother]
      · next hstrict => exact .past (by simp [Checkpoint.passes, hstrict]) (.ok rfl)

theorem screened_readSelectorArgument (s : Scope) (plural : Option PluralType) (name : String)
    (opening : Position) (hin : c.IsIn message.toList) :
    ElementScreened message o o' (logSelectorArgument inner o s plural name opening c)
      (readSelectorArgument inner' o' s plural name opening c) := by
  apply Screened.bind_same
  intro comma hcomma
  apply Screened.bind_same
  rintro ⟨offset, first⟩ hoffset
  have hfirst := (reaches_of_separated hcomma hoffset).isIn hin
  apply (screened_readAllBranches h hlogs hinner hreach s plural.isSome hfirst).bind
  rintro ⟨branches, stop⟩ -
  exact .bind_same fun d _ => .ok rfl

theorem screened_readTypedArgument (s : Scope) (name : String) (opening : Position)
    (hin : c.IsIn message.toList) :
    ElementScreened message o o' (logTypedArgument inner level o s name opening c)
      (readTypedArgument inner' o' s name opening c) := by
  have hword := (reaches_identifier c).isIn hin
  unfold logTypedArgument readTypedArgument
  simp only
  split
  · exact .failed _
  cases argumentTypes.lookup c.identifier.1 with
  | none => exact .failed _
  | some type =>
      cases type with
      | number => exact screened_readNumber h hword level name opening
      | dateTime kind => exact screened_readDateTime h hword level kind name opening
      | selector plural =>
          exact screened_readSelectorArgument h hlogs hinner hreach s plural name opening hword

theorem screened_readArgumentTail (s : Scope) (name : String) (opening : Position)
    (hin : c.IsIn message.toList) :
    ElementScreened message o o' (logArgumentTail inner level o s name opening c)
      (readArgumentTail inner' o' s name opening c) := by
  have htyped := (reaches_bump c).trans (reaches_skipSpace c.bump)
  unfold logArgumentTail readArgumentTail
  cases c.rest with
  | nil => exact .failed _
  | cons ch text =>
      simp only
      split
      · exact .ok rfl
      split
      · split
        · exact .failed _
        · exact screened_readTypedArgument h hlogs hinner hreach s _ _ (htyped.isIn hin)
      · exact .failed _

theorem screened_readArgument (s : Scope) (hin : c.IsIn message.toList) :
    ElementScreened message o o' (logArgument inner level o s c)
      (readArgument inner' o' s c) := by
  have hnamed := ((reaches_bump c).trans (reaches_skipSpace c.bump)).trans
    ((reaches_identifier _).trans (reaches_skipSpace _))
  unfold logArgument readArgument
  simp only
  cases c.bump.skipSpace.rest with
  | nil => exact .failed _
  | cons ch text =>
      simp only
      split
      · exact .failed _
      split
      · exact .failed _
      · exact screened_readArgumentTail h hlogs hinner hreach s _ _ (hnamed.isIn hin)

omit h hlogs hreach in
theorem screened_readTag (s : Scope) (hin : c.IsIn message.toList) :
    ElementScreened message o o' (logTag inner s c) (readTag inner' s c) := by
  have hnamed := ((reaches_bump c).trans (reaches_tagName c.bump)).trans (reaches_skipSpace _)
  unfold logTag readTag
  simp only
  cases c.bump.tagName.2.skipSpace.skip? ['/', '>'] with
  | some d => exact .ok rfl
  | none =>
      apply Screened.bind_same
      intro body hbody
      apply (hinner _ body ((hnamed.trans (.of_expect hbody)).isIn hin)).bind
      rintro ⟨children, stop⟩ -
      exact .bind_same fun d _ => .ok rfl

theorem screened_readElement (s : Scope) (hin : c.IsIn message.toList) :
    Screened message o o'
      (Option.map fun r => (r.1.withMeanings o'.shouldParseSkeletons, r.2))
      (logElement inner level o s c) (readElement inner' o' s c) := by
  unfold logElement readElement
  rw [h.tags]
  cases c.rest with
  | nil => exact .ok rfl
  | cons ch text =>
      simp only
      split
      · exact (screened_readArgument h hlogs hinner hreach s hin).map fun _ => rfl
      split
      · exact .ok rfl
      split
      · exact .ok rfl
      split
      · split
        · exact .ok rfl
        · exact .failed _
      split
      · exact (screened_readTag hinner s hin).map fun _ => rfl
      · rw [readLiteral_congr h.tags]
        exact .ok rfl

theorem screened_readElements (s : Scope) (bound : Nat) (hin : c.IsIn message.toList) :
    TextScreened message o o' (logElements inner level o s bound c)
      (readElements inner' o' s bound c) := by
  induction bound generalizing c with
  | zero => exact .ok rfl
  | succ bound ih =>
      apply (screened_readElement h hlogs hinner hreach s hin).bind
      intro found hfound
      match found with
      | none => exact .ok rfl
      | some (e, d) =>
          rw [(logs_readElement hlogs o s c).outcome] at hfound
          have hd := (((readElement_iff hreach).mp hfound).reaches hreach).isIn hin
          exact (ih hd).map fun _ => rfl

end Nested

/-! ## Messages -/

/-- At each level the budgets are what the limits leave. -/
theorem screened_readMessage {message : String} {o o' : ParseOptions} (h : o.Laxer o')
    {budget level : Nat} (hbudget : level + budget = o.maxNestingDepth + 1) (s : Scope)
    (c : Cursor) (hin : c.IsIn message.toList) :
    TextScreened message o o' (logMessage o budget level s c)
      (readMessage o' (o'.maxNestingDepth + 1 - level) s c) := by
  have hdepth := h.depth
  induction budget generalizing level s c with
  | zero =>
      have hnone : o'.maxNestingDepth + 1 - level = 0 := by omega
      rw [hnone]
      exact .failed _
  | succ budget ih =>
      by_cases hlevel : level ≤ o'.maxNestingDepth
      · have hleft : o'.maxNestingDepth + 1 - level =
            (o'.maxNestingDepth + 1 - (level + 1)) + 1 := by omega
        rw [hleft]
        have hinner := ih (by omega : level + 1 + budget = o.maxNestingDepth + 1)
        refine .past (by simpa [Checkpoint.passes] using hlevel) ?_
        exact screened_readElements h (logs_readMessage o budget (level + 1)) hinner
          reaches_of_readMessage s _ hin
      · have hnone : o'.maxNestingDepth + 1 - level = 0 := by omega
        rw [hnone]
        apply Screened.refused_at
        refine ⟨?_, ?_, rfl⟩
        · simp only [Checkpoint.passes, decide_eq_true_eq]
          omega
        · simpa [Checkpoint.passes] using hlevel

section Messages

variable {o o' : ParseOptions} (h : o.Laxer o') {message : String} {elements : List Element}

include h

theorem screened_readAll (message : String) :
    TextScreened message o o' (logAll o message.toList) (readAll o' message.toList) := by
  apply screened_readMessage h
  · omega
  · exact isIn_start _

/-- Strict options refuse a message at the first checkpoint that the lax reading
comes past and that fails them.  If there is none, they read what the lax options
read, with meanings, or fail like them. -/
theorem parse_screened (message : String) :
    ((∀ p ∈ checkpointsPassed message o, p.passes o' = true) ∧
      parse message o' = withMeanings o'.shouldParseSkeletons <$> parse message o) ∨
    ∃ p e, (checkpointsPassed message o).find? (!·.passes o') = some p ∧
      parse message o' = .error e ∧ p.Refused message o o' e := by
  have hscreened := screened_readAll h message
  have houtcome := (logs_readAll o message.toList).outcome
  unfold parse checkpointsPassed
  rw [← houtcome]
  generalize readAll o' message.toList = strict at hscreened ⊢
  cases hscreened with
  | passed all =>
      refine .inl ⟨all, ?_⟩
      cases (logAll o message.toList).outcome with
      | error f => rfl
      | ok r => rfl
  | @refused p f first why => exact .inr ⟨p, _, first, rfl, why⟩

theorem parse_of_passes (hparse : parse message o = .ok elements)
    (hpasses : ∀ p ∈ checkpoints 0 elements, p.passes o' = true) :
    parse message o' = .ok (withMeanings o'.shouldParseSkeletons elements) := by
  rcases parse_screened h message with ⟨-, hstrict⟩ | ⟨p, _, hfirst, -⟩
  · rw [hstrict, hparse]
    rfl
  · -- The text of the whole message is never too deep.
    have hfails := List.find?_some hfirst
    have hmem := List.mem_of_find?_eq_some hfirst
    rw [checkpointsPassed_of_parse hparse] at hmem
    rcases List.mem_cons.mp hmem with rfl | hmem
    · simp [Checkpoint.passes] at hfails
    · simp [hpasses p hmem] at hfails

theorem parse_of_not_passes (hparse : parse message o = .ok elements)
    (hfails : ¬ ∀ p ∈ checkpoints 0 elements, p.passes o' = true) :
    ∃ p e, (checkpoints 0 elements).find? (!·.passes o') = some p ∧
      parse message o' = .error e ∧ p.Refused message o o' e := by
  have hpassed := checkpointsPassed_of_parse hparse
  rcases parse_screened h message with ⟨hall, -⟩ | ⟨p, e, hfirst, hstrict, why⟩
  · rw [hpassed] at hall
    exact absurd (fun p hp => hall p (List.mem_cons_of_mem _ hp)) hfails
  · rw [hpassed] at hfirst
    exact ⟨p, e, by simpa [Checkpoint.passes] using hfirst, hstrict, why⟩

end Messages

/-- What reading has come past has what the options ask for. -/
theorem passes_of_passed (message : String) (o : ParseOptions) :
    ∀ p ∈ checkpointsPassed message o, p.passes o = true := by
  rcases parse_screened (.refl o) message with ⟨hall, -⟩ | ⟨p, _, -, -, why⟩
  · exact hall
  · cases why.lax.symm.trans why.strict

/-- In what was read the options have found what they ask for. -/
theorem passes_of_parse {message : String} {o : ParseOptions} {elements : List Element}
    (hparse : parse message o = .ok elements) :
    ∀ p ∈ checkpoints 0 elements, p.passes o = true := by
  intro p hp
  apply passes_of_passed message o
  rw [checkpointsPassed_of_parse hparse]
  exact List.mem_cons_of_mem _ hp

theorem withMeanings_of_parse {message : String} {o : ParseOptions} {elements : List Element}
    (hparse : parse message o = .ok elements) :
    withMeanings o.shouldParseSkeletons elements = elements := by
  have hsame := parse_of_passes (.refl o) hparse (passes_of_parse hparse)
  exact (Except.ok.inj (hparse.symm.trans hsame)).symm

theorem map_withMeanings_parse (message : String) (o : ParseOptions) :
    withMeanings o.shouldParseSkeletons <$> parse message o = parse message o := by
  cases hparse : parse message o with
  | error e => rfl
  | ok elements => exact congrArg Except.ok (withMeanings_of_parse hparse)

/-- Options that ask for the same meanings have the same outcome, unless the strict ones refuse
the message. -/
theorem parse_same_or_refused {o o' : ParseOptions} (h : o.Laxer o')
    (hskeletons : o'.shouldParseSkeletons = o.shouldParseSkeletons) (message : String) :
    parse message o' = parse message o ∨
      ∃ e, ∃ p : Checkpoint, parse message o' = .error e ∧ p.Refused message o o' e := by
  rcases parse_screened h message with ⟨-, hsame⟩ | ⟨p, e, -, hstrict, why⟩
  · rw [hskeletons, map_withMeanings_parse] at hsame
    exact .inl hsame
  · exact .inr ⟨e, p, hstrict, why⟩

/-- Options that ask for the same meanings give the same tree, if any. -/
theorem parse_same_of_passes {message : String} {o o' : ParseOptions} {elements : List Element}
    (h : o.Laxer o') (hskeletons : o'.shouldParseSkeletons = o.shouldParseSkeletons)
    (hparse : parse message o = .ok elements)
    (hpasses : ∀ p ∈ checkpoints 0 elements, p.passes o' = true) :
    parse message o' = .ok elements := by
  rw [parse_of_passes h hparse hpasses, hskeletons, withMeanings_of_parse hparse]

end MessagePattern
