/-
# What kinds of fault there are

A message is refused for its form, or for a skeleton in it.  A fault of form has
no cause behind it, and some of its kinds occur only if the options ask for the
form in question.  A fault in a skeleton has the reason as its cause: the tokens
of a number skeleton cannot be told apart, or, if the reader was asked for the
meaning of skeletons, a token or a field has none.

`Failure.Arises` lists these cases and there is one lemma for each reader that it
fails in no other way.  What matters later is the last case: the pattern of a date
or time is looked at only once every brace and every quoted text in it is known to
be closed.  At the end of the module stands what this says of errors: the kind of an
error tells its cause and the options, and never more than is so.
-/

import MessagePattern.Proofs.DateTimePattern
import MessagePattern.Proofs.RefusedTokens
import MessagePattern.Proofs.WellFormed

namespace MessagePattern

/-! ## Number skeletons -/

/-- The stem of the token that a number skeleton is refused for. -/
def SkeletonError.stem? : SkeletonError → Option String
  | .missingOption stem => some stem
  | .tooManyOptions stem _ => some stem
  | .invalidOption stem _ _ => some stem
  | .malformedNotation stem => some stem
  | _ => none

/-- Whatever is wrong with a token, its stem is named. -/
theorem NumberToken.Refused.stem?_eq {t : NumberToken} {e : SkeletonError} (h : t.Refused e) :
    e.stem? = some t.stem := by
  cases h <;> rfl

namespace NumberSkeleton

/-- A number skeleton is refused for one of its tokens. -/
theorem interpret_eq_error {tokens : List NumberToken} {e : SkeletonError}
    (h : interpret tokens = .error e) : ∃ t ∈ tokens, e.stem? = some t.stem := by
  obtain ⟨before, t, after, rfl, -, hrefused⟩ := interpret_eq_error_iff.mp h
  exact ⟨t, List.mem_append_right before List.mem_cons_self, hrefused.stem?_eq⟩

/-- The tokens of a skeleton cannot be told apart if there are none or one of them
has an empty option. -/
theorem tokenize_eq_error {text : List Char} {e : SkeletonError} (h : tokenize text = .error e) :
    e = .empty ∨ ∃ token, e = .emptyOption token := by
  have hpiece (piece : List Char) :
      FaultsObey (fun e => e = .empty ∨ ∃ token, e = .emptyOption token) (tokenOfPiece piece) := by
    unfold tokenOfPiece
    simp only
    split
    · exact .error (.inr ⟨_, rfl⟩)
    · exact .ok _
  refine FaultsObey.bind (.mapM fun piece _ => hpiece piece) (fun tokens _ => ?_) e h
  split
  · exact .error (.inl rfl)
  · exact .ok _

end NumberSkeleton

/-! ## Failures of readers -/

/-- The kinds of fault in the form of a message, as far as the options ask for the
form in question. -/
def ErrorKind.isOfForm (o : ParseOptions) : ErrorKind → Bool
  | .other => false
  | .invalidNumberSkeleton => false
  | .invalidDateTimeSkeleton => false
  | .illegalParserUsage => false
  | .missingOtherClause => o.requiresOtherClause
  | .invalidTag => !o.ignoreTag
  | .invalidTagName => !o.ignoreTag
  | .unmatchedClosingTag => !o.ignoreTag
  | .unclosedTag => !o.ignoreTag
  | _ => true

/-- The ways in which a reader can fail. -/
inductive Failure.Arises (o : ParseOptions) : Failure → Prop
  | form {kind : ErrorKind} {location : Location} {stop : Position}
      (asked : kind.isOfForm o = true) : Arises o ⟨kind, location, none, stop⟩
  | tokens {text : List Char} {e : SkeletonError} {location : Location} {stop : Position}
      (refused : NumberSkeleton.tokenize text = .error e) :
      Arises o ⟨.invalidNumberSkeleton, location, some (.skeleton e), stop⟩
  | number {tokens : List NumberToken} {e : SkeletonError} {location : Location}
      {stop : Position} (asked : o.shouldParseSkeletons = true)
      (refused : NumberSkeleton.interpret tokens = .error e) :
      Arises o ⟨.other, location, some (.skeleton e), stop⟩
  | dateTime {pattern : List Char} {e : SkeletonError} {location : Location}
      {stop : Position} (asked : o.shouldParseSkeletons = true)
      (closed : styleMatches 0 false pattern = true)
      (refused : DateTimeSkeleton.interpret pattern = .error e) :
      Arises o ⟨dateTimeErrorKind e, location, some (.skeleton e), stop⟩

section Readers

variable {o : ParseOptions} {α : Type}

theorem arises_fail {c : Cursor} {kind : ErrorKind} {location : Location}
    (h : kind.isOfForm o = true) :
    FaultsObey (Failure.Arises o) (c.fail kind location : Except Failure α) :=
  .error (.form h)

theorem arises_expect {text : List Char} {c : Cursor} {kind : ErrorKind} {location : Location}
    (h : kind.isOfForm o = true) : FaultsObey (Failure.Arises o) (c.expect text kind location) := by
  unfold Cursor.expect
  split
  · exact .ok _
  · exact arises_fail h

theorem arises_closeBrace (c : Cursor) (opening : Position) :
    FaultsObey (Failure.Arises o) (c.closeBrace opening) :=
  arises_expect rfl

theorem isOfForm_selectorErrors (plural : Bool) :
    (SelectorErrors.of plural).duplicate.isOfForm o = true ∧
      (SelectorErrors.of plural).fragment.isOfForm o = true ∧
      (SelectorErrors.of plural).selector.isOfForm o = true := by
  cases plural <;> exact ⟨rfl, rfl, rfl⟩

/-! ## Numerals and styles -/

theorem arises_readInteger {absent excessive : ErrorKind} (habsent : absent.isOfForm o = true)
    (hexcessive : excessive.isOfForm o = true) (c : Cursor) :
    FaultsObey (Failure.Arises o) (readInteger absent excessive c) := by
  unfold readInteger
  simp only
  split
  · exact arises_fail habsent
  split
  · exact arises_fail hexcessive
  · exact .ok _

theorem arises_readOffset (plural : Bool) (c : Cursor) :
    FaultsObey (Failure.Arises o) (readOffset plural c) := by
  unfold readOffset
  simp only
  split
  · apply (arises_expect rfl).bind
    intro colon _
    exact (arises_readInteger rfl rfl _).bind fun _ _ => .ok _
  · exact .ok _

theorem arises_readSelector (plural : Bool) (c : Cursor) :
    FaultsObey (Failure.Arises o) (readSelector plural c) := by
  unfold readSelector
  simp only
  split
  · exact .ok _
  split
  · split
    · exact .ok _
    · exact (arises_readInteger rfl rfl _).bind fun _ _ => .ok _
  · exact .ok _

theorem arises_readStyle (c : Cursor) : FaultsObey (Failure.Arises o) (readStyle c) := by
  apply FaultsObey.bind
  · unfold readStyleText
    split
    · exact .ok _
    · exact arises_fail rfl
  · rintro ⟨text, stop⟩ _
    simp only
    split
    · exact arises_fail rfl
    · exact .ok _

theorem arises_readOptionalStyle (c : Cursor) :
    FaultsObey (Failure.Arises o) (readOptionalStyle c) := by
  unfold readOptionalStyle
  simp only
  split
  · exact .ok _
  · exact (arises_readStyle _).bind fun _ _ => .ok _

theorem arises_numberStyle (text : List Char) (location : Location) (c : Cursor) :
    FaultsObey (Failure.Arises o) (numberStyle o text location c) := by
  unfold numberStyle
  split
  · exact .ok _
  split
  · exact arises_fail rfl
  split
  · next hrefused => exact .error (.tokens hrefused)
  split
  · next hasked =>
      split
      · next hrefused => exact .error (.number hasked hrefused)
      · exact .ok _
  · exact .ok _

/-- The pattern of a date or time is interpreted only if all of it is closed. -/
theorem arises_dateTimeStyle {raw : List Char} (hmatch : styleMatches 0 false raw = true)
    (location element : Location) (c : Cursor) :
    FaultsObey (Failure.Arises o) (dateTimeStyle o (trimEnd raw) location element c) := by
  unfold dateTimeStyle
  split
  · exact .ok _
  next skeleton hskeleton =>
  obtain ⟨inner, hinner, rfl⟩ := skeletonText?_eq_some hskeleton
  split
  · exact arises_fail rfl
  split
  · next hasked =>
      split
      · next hrefused =>
          exact .error (.dateTime hasked (styleMatches_skeleton hmatch hinner) hrefused)
      · exact .ok _
  · exact .ok _

theorem arises_readNumber (name : String) (opening : Position) (c : Cursor) :
    FaultsObey (Failure.Arises o) (readNumber o name opening c) := by
  apply (arises_readOptionalStyle c).bind
  rintro ⟨text, styled⟩ _
  apply (arises_closeBrace styled opening).bind
  intro d _
  match text with
  | none => exact .ok _
  | some (text, location) => exact (arises_numberStyle text location d).bind fun _ _ => .ok _

theorem arises_readDateTime (kind : DateTimeKind) (name : String) (opening : Position)
    (c : Cursor) : FaultsObey (Failure.Arises o) (readDateTime o kind name opening c) := by
  apply (arises_readOptionalStyle c).bind
  rintro ⟨text, styled⟩ hstyle
  apply (arises_closeBrace styled opening).bind
  intro d hclosed
  match text with
  | none => exact .ok _
  | some (text, location) =>
      obtain ⟨raw, rfl, -, -, hmatch⟩ := readOptionalStyle_eq_ok hstyle hclosed
      exact (arises_dateTimeStyle hmatch location _ d).bind fun _ _ => .ok _

theorem arises_readClosingTag (htags : o.ignoreTag = false) (name : String) (opening : Position)
    (c : Cursor) : FaultsObey (Failure.Arises o) (readClosingTag name opening c) := by
  apply (arises_expect (by simp [ErrorKind.isOfForm, htags])).bind
  intro slash _
  simp only
  split
  · exact arises_fail (by simp [ErrorKind.isOfForm, htags])
  split
  · exact arises_fail (by simp [ErrorKind.isOfForm, htags])
  · exact arises_expect (by simp [ErrorKind.isOfForm, htags])

/-! ## Readers with nested text -/

variable {inner : NestedReader} (hinner : ∀ s c, FaultsObey (Failure.Arises o) (inner s c))

include hinner

theorem arises_readFragment (s : Scope) (plural : Bool) (selector : String) (c : Cursor) :
    FaultsObey (Failure.Arises o) (readFragment inner s plural selector c) := by
  apply (arises_expect (isOfForm_selectorErrors plural).2.1).bind
  intro body _
  apply (hinner (s.branch plural) body).bind
  rintro ⟨value, stop⟩ _
  exact (arises_closeBrace stop _).bind fun _ _ => .ok _

theorem arises_readBranches (s : Scope) (plural : Bool) (bound : Nat) (seen : List String)
    (c : Cursor) : FaultsObey (Failure.Arises o) (readBranches inner s plural bound seen c) := by
  induction bound generalizing seen c with
  | zero => exact .ok _
  | succ bound ih =>
      apply (arises_readSelector plural c).bind
      intro found _
      match found with
      | none => exact .ok _
      | some (selector, d) =>
          simp only
          split
          · exact arises_fail (isOfForm_selectorErrors plural).1
          · apply (arises_readFragment hinner s plural selector d).bind
            rintro ⟨branch, next⟩ _
            exact (ih (selector :: seen) next).bind fun _ _ => .ok _

theorem arises_readAllBranches (s : Scope) (plural : Bool) (c : Cursor) :
    FaultsObey (Failure.Arises o) (readAllBranches inner o s plural c) := by
  apply (arises_readBranches hinner s plural _ [] c).bind
  rintro ⟨branches, last⟩ _
  simp only
  split
  · exact arises_fail (isOfForm_selectorErrors plural).2.2
  split
  · next hother => exact arises_fail hother.1
  · exact .ok _

theorem arises_readSelectorArgument (s : Scope) (plural : Option PluralType) (name : String)
    (opening : Position) (c : Cursor) :
    FaultsObey (Failure.Arises o) (readSelectorArgument inner o s plural name opening c) := by
  apply (arises_expect rfl).bind
  intro comma _
  apply (arises_readOffset plural.isSome comma.skipSpace).bind
  rintro ⟨offset, first⟩ _
  apply (arises_readAllBranches hinner s plural.isSome first).bind
  rintro ⟨branches, last⟩ _
  exact (arises_closeBrace last opening).bind fun _ _ => .ok _

theorem arises_readTypedArgument (s : Scope) (name : String) (opening : Position) (c : Cursor) :
    FaultsObey (Failure.Arises o) (readTypedArgument inner o s name opening c) := by
  unfold readTypedArgument
  simp only
  split
  · exact arises_fail rfl
  split
  · exact arises_fail rfl
  · exact arises_readNumber name opening _
  · exact arises_readDateTime _ name opening _
  · exact arises_readSelectorArgument hinner s _ name opening _

theorem arises_readArgument (s : Scope) (c : Cursor) :
    FaultsObey (Failure.Arises o) (readArgument inner o s c) := by
  unfold readArgument
  simp only
  split
  · exact arises_fail rfl
  split
  · exact arises_fail rfl
  split
  · exact arises_fail rfl
  unfold readArgumentTail
  split
  · exact arises_fail rfl
  split
  · exact .ok _
  split
  · simp only
    split
    · exact arises_fail rfl
    · exact arises_readTypedArgument hinner s _ c.position _
  · exact arises_fail rfl

theorem arises_readTag (htags : o.ignoreTag = false) (s : Scope) (c : Cursor) :
    FaultsObey (Failure.Arises o) (readTag inner s c) := by
  unfold readTag
  simp only
  split
  · exact .ok _
  · apply (arises_expect (by simp [ErrorKind.isOfForm, htags])).bind
    intro body _
    apply (hinner s.tagBody body).bind
    rintro ⟨children, stop⟩ _
    exact (arises_readClosingTag htags _ c.position stop).bind fun _ _ => .ok _

theorem arises_readElement (s : Scope) (c : Cursor) :
    FaultsObey (Failure.Arises o) (readElement inner o s c) := by
  unfold readElement
  split
  · exact .ok _
  split
  · exact (arises_readArgument hinner s c).map
  split
  · exact .ok _
  split
  · exact .ok _
  split
  · next htag =>
      split
      · exact .ok _
      · exact arises_fail htag.2.1
  split
  · next htag => exact (arises_readTag hinner (by simpa using htag.2.1) s c).map
  · exact .ok _

theorem arises_readElements (s : Scope) (bound : Nat) (c : Cursor) :
    FaultsObey (Failure.Arises o) (readElements inner o s bound c) := by
  induction bound generalizing c with
  | zero => exact .ok _
  | succ bound ih =>
      apply (arises_readElement hinner s c).bind
      intro found _
      match found with
      | none => exact .ok _
      | some (e, d) => exact (ih d).bind fun _ _ => .ok _

end Readers

theorem arises_readMessage (o : ParseOptions) (budget : Nat) (s : Scope) (c : Cursor) :
    FaultsObey (Failure.Arises o) (readMessage o budget s c) := by
  induction budget generalizing s c with
  | zero => exact arises_fail rfl
  | succ budget ih => exact arises_readElements ih s _ c

/-- An error of a message is a failure of its reading. -/
theorem exists_failure_of_parse {message : String} {o : ParseOptions} {e : ParseError}
    (h : parse message o = .error e) : ∃ f, Failure.Arises o f ∧ e = f.toError message := by
  unfold parse at h
  split at h
  · cases h
  · next f hf =>
      cases h
      exact ⟨f, arises_readMessage o _ .top _ f hf, rfl⟩

/-! ## What an error tells -/

/-- The kind of an error tells what is known of it besides: whether a skeleton is
the cause and of what sort the fault in it is, and with which options the message
was read. -/
structure ParseError.Honest (message : String) (o : ParseOptions) (e : ParseError) : Prop where
  /-- The message is the one that was read. -/
  message : e.message = message
  /-- Errors of two kinds have a skeleton as their cause, and the others have none. -/
  cause : (∃ reason, e.cause = some (.skeleton reason)) ↔
    e.kind = .invalidNumberSkeleton ∨ e.kind = .other
  noCause : e.kind ≠ .invalidNumberSkeleton → e.kind ≠ .other → e.cause = none
  noPanic : ∀ reason, e.cause ≠ some (.panic reason)
  /-- The two kinds differ in whether the tokens of the skeleton can be told apart. -/
  tokens : e.kind = .invalidNumberSkeleton →
    e.cause = some (.skeleton .empty) ∨ ∃ token, e.cause = some (.skeleton (.emptyOption token))
  meaning : e.kind = .other →
    e.cause ≠ some (.skeleton .empty) ∧ ∀ token, e.cause ≠ some (.skeleton (.emptyOption token))
  /-- Some kinds are found only by readers that were asked to look for them. -/
  meaningAsked : e.kind = .other → o.shouldParseSkeletons = true
  otherAsked : e.kind = .missingOtherClause → o.requiresOtherClause = true
  tagsAsked : e.kind ∈ [.invalidTag, .invalidTagName, .unmatchedClosingTag, .unclosedTag] →
    o.ignoreTag = false
  firstUse : e.kind ≠ .illegalParserUsage

section Honest

variable {o : ParseOptions} (message : String) (location : Location)

theorem honest_of_isOfForm {kind : ErrorKind} (h : kind.isOfForm o = true) :
    ParseError.Honest message o ⟨kind, message, location, none⟩ := by
  have hother : kind ≠ .other := by
    rintro rfl
    cases h
  have htokens : kind ≠ .invalidNumberSkeleton := by
    rintro rfl
    cases h
  constructor
  case firstUse =>
    rintro rfl
    cases h
  case otherAsked =>
    rintro rfl
    exact h
  case tagsAsked =>
    intro hkind
    simp only [List.mem_cons, List.not_mem_nil, or_false] at hkind
    rcases hkind with rfl | rfl | rfl | rfl <;> simpa [ErrorKind.isOfForm] using h
  all_goals simp [hother, htokens]

theorem honest_of_tokens {reason : SkeletonError}
    (h : reason = .empty ∨ ∃ token, reason = .emptyOption token) :
    ParseError.Honest message o
      ⟨.invalidNumberSkeleton, message, location, some (.skeleton reason)⟩ := by
  constructor
  case tokens =>
    rcases h with rfl | ⟨token, rfl⟩
    · exact fun _ => .inl rfl
    · exact fun _ => .inr ⟨token, rfl⟩
  all_goals simp

theorem honest_of_meaning {reason : SkeletonError} (hasked : o.shouldParseSkeletons = true)
    (hempty : reason ≠ .empty) (htoken : ∀ token, reason ≠ .emptyOption token) :
    ParseError.Honest message o ⟨.other, message, location, some (.skeleton reason)⟩ := by
  constructor
  all_goals simp [hasked, hempty, htoken]

end Honest

/-- A failure is an honest error, in whichever way it arises. -/
theorem Failure.Arises.honest {o : ParseOptions} {f : Failure} (h : f.Arises o)
    (message : String) : (f.toError message).Honest message o := by
  cases h with
  | form hasked => exact honest_of_isOfForm message _ hasked
  | tokens hrefused =>
      exact honest_of_tokens message _ (NumberSkeleton.tokenize_eq_error hrefused)
  | number hasked hrefused =>
      obtain ⟨t, -, hstem⟩ := NumberSkeleton.interpret_eq_error hrefused
      apply honest_of_meaning message _ hasked
      · rintro rfl
        cases hstem
      · rintro token rfl
        cases hstem
  | dateTime hasked hclosed hrefused =>
      obtain ⟨letter, group, rfl⟩ := DateTimeSkeleton.interpret_eq_error hclosed hrefused
      exact honest_of_meaning message _ hasked nofun nofun

/-- Every error of a message is honest about its kind. -/
theorem honest_of_parse {message : String} {o : ParseOptions} {e : ParseError}
    (h : parse message o = .error e) : e.Honest message o := by
  obtain ⟨f, hf, rfl⟩ := exists_failure_of_parse h
  exact hf.honest message

/-- Two messages with the same tag.  In the first, white space of the narrower class
is all there is of a skeleton, so it has no token; in the second the tokens are there
and the meaning of one, which was asked for, is missing. -/
theorem honest_of_parse_skeletons :
    (∃ e, parse "<b>\x7bn, number, ::\u200e\x7d</b>" {} = .error e ∧
      e.Honest "<b>\x7bn, number, ::\u200e\x7d</b>" {} ∧ e.kind = .invalidNumberSkeleton) ∧
    ∃ e, parse "<b>\x7bn, number, ::scale\x7d</b>" { shouldParseSkeletons := true } = .error e ∧
      e.Honest "<b>\x7bn, number, ::scale\x7d</b>" { shouldParseSkeletons := true } ∧
      e.kind = .other := by
  constructor
  · have hread : parse "<b>\x7bn, number, ::\u200e\x7d</b>" {} =
        .error ⟨.invalidNumberSkeleton, "<b>\x7bn, number, ::\u200e\x7d</b>", .inLine 15 18,
          some (.skeleton .empty)⟩ := rfl
    exact ⟨_, hread, honest_of_parse hread, rfl⟩
  · have hread : parse "<b>\x7bn, number, ::scale\x7d</b>" { shouldParseSkeletons := true } =
        .error ⟨.other, "<b>\x7bn, number, ::scale\x7d</b>", .inLine 15 22,
          some (.skeleton (.missingOption "scale"))⟩ := rfl
    exact ⟨_, hread, honest_of_parse hread, rfl⟩

end MessagePattern
