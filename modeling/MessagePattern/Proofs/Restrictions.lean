/-
# Limits on what may be read

The limit on nesting and the demand for a branch for `other` restrict what may be
read.  Neither changes anything else: a message that they let pass is read as if
they were not there, and one that they do not let pass has an error of their own,
unless some other error comes first.

Both statements are about two readings of one message, so they hold for every
message, whether it can be read or not.
-/

import MessagePattern.Proofs.Screening

namespace MessagePattern

/-- The message was refused with an error of this kind. -/
def FailsWith (kind : ErrorKind) (outcome : Except ParseError (List Element)) : Prop :=
  ∃ e, outcome = .error e ∧ e.kind = kind

/-! ## Nesting -/

section Nesting

variable {message : String} {o : ParseOptions} {limit limit' : Nat} {elements : List Element}

theorem ParseOptions.laxer_of_le (o : ParseOptions) (h : limit ≤ limit') :
    { o with maxNestingDepth := limit' }.Laxer { o with maxNestingDepth := limit } :=
  ⟨rfl, h, id, id⟩

theorem Checkpoint.Refused.kind_of_limit {p : Checkpoint} {e : ParseError}
    (h : p.Refused message { o with maxNestingDepth := limit' }
      { o with maxNestingDepth := limit } e) : e.kind = .exceededMaxNestingDepth := by
  cases p with
  | text => exact h.reported
  | skeleton => cases h.lax.symm.trans h.strict
  | branches => cases h.lax.symm.trans h.strict

/-- A higher limit makes a difference only to messages that were nested too deep. -/
theorem parse_of_limit_le (h : limit ≤ limit')
    (hdepth : ¬ FailsWith .exceededMaxNestingDepth
      (parse message { o with maxNestingDepth := limit })) :
    parse message { o with maxNestingDepth := limit' } =
      parse message { o with maxNestingDepth := limit } := by
  rcases parse_same_or_refused (o.laxer_of_le h) rfl message with hsame | ⟨e, _, hstrict, why⟩
  · exact hsame.symm
  · exact absurd ⟨e, hstrict, why.kind_of_limit⟩ hdepth

/-- What was read under one limit passes those that are no lower than it is nested. -/
theorem passes_limit_iff
    (hparse : parse message { o with maxNestingDepth := limit' } = .ok elements) :
    (∀ p ∈ checkpoints 0 elements, p.passes { o with maxNestingDepth := limit } = true) ↔
      nestingDepth elements ≤ limit := by
  have hwithin := withinDepth_iff (Nat.zero_le limit) elements
  rw [Nat.zero_add] at hwithin
  rw [← hwithin]
  constructor
  · intro hpasses level hlevel
    simpa [Checkpoint.passes] using hpasses _ hlevel
  · intro hdepth p hp
    have hpassed := passes_of_parse hparse p hp
    cases p with
    | text level => simpa [Checkpoint.passes] using hdepth level hp
    | skeleton => exact hpassed
    | branches => exact hpassed

/-- The limit on nesting is exact.  A higher limit gives the same outcome, unless
the lower one was exceeded; and what can be read under some limit can be read
under those that are no lower than it is nested, with the same result, and exceeds
all others. -/
theorem nesting_limit_exact (message : String) (o : ParseOptions) :
    (∀ limit limit', limit ≤ limit' →
      ¬ FailsWith .exceededMaxNestingDepth (parse message { o with maxNestingDepth := limit }) →
      parse message { o with maxNestingDepth := limit' } =
        parse message { o with maxNestingDepth := limit }) ∧
    ∀ limit elements, parse message { o with maxNestingDepth := limit } = .ok elements →
      ∀ limit',
        (nestingDepth elements ≤ limit' →
          parse message { o with maxNestingDepth := limit' } = .ok elements) ∧
        (limit' < nestingDepth elements →
          FailsWith .exceededMaxNestingDepth
            (parse message { o with maxNestingDepth := limit' })) := by
  refine ⟨fun _ _ => parse_of_limit_le, fun limit elements hparse limit' => ?_⟩
  -- The higher of the two limits lets the message pass, and is laxer than `limit'`.
  have hhigh : parse message { o with maxNestingDepth := max limit limit' } = .ok elements := by
    rw [parse_of_limit_le (Nat.le_max_left limit limit'), hparse]
    rintro ⟨e, herror, -⟩
    cases hparse.symm.trans herror
  have hlaxer := o.laxer_of_le (Nat.le_max_right limit limit')
  constructor
  · intro hdepth
    exact parse_same_of_passes hlaxer rfl hhigh ((passes_limit_iff hhigh).mpr hdepth)
  · intro hdepth
    have hfails := mt (passes_limit_iff hhigh).mp (Nat.not_le.mpr hdepth)
    obtain ⟨p, e, -, hstrict, why⟩ := parse_of_not_passes hlaxer hhigh hfails
    exact ⟨e, hstrict, why.kind_of_limit⟩

/-- An empty tag in a branch in a tag is nested three deep, and a tag that closes
itself is not nested at all. -/
theorem nesting_limit_exact_empty_body :
    ∃ elements, parse "<b>{n, plural, =1 {<i></i>} other {<br/>}}</b>" { maxNestingDepth := 7 } =
        .ok elements ∧
      nestingDepth elements = 3 ∧
      parse "<b>{n, plural, =1 {<i></i>} other {<br/>}}</b>" { maxNestingDepth := 3 } =
        .ok elements ∧
      FailsWith .exceededMaxNestingDepth
        (parse "<b>{n, plural, =1 {<i></i>} other {<br/>}}</b>" { maxNestingDepth := 2 }) := by
  have hparse : parse "<b>{n, plural, =1 {<i></i>} other {<br/>}}</b>" { maxNestingDepth := 7 } =
      .ok [.tag "b" [.selector (.plural .cardinal 0) "n"
        [⟨"=1", [.tag "i" [] (.inLine 19 26)], .inLine 18 27⟩,
          ⟨"other", [.literal "<br/>" (.inLine 35 40)], .inLine 34 41⟩] (.inLine 3 42)]
        (.inLine 0 46)] := rfl
  have hlimits := (nesting_limit_exact _ {}).2 7 _ hparse
  exact ⟨_, hparse, by decide, (hlimits 3).1 (by decide), (hlimits 2).2 (by decide)⟩

end Nesting

/-! ## Branches for `other` -/

section Other

variable {message : String} {o : ParseOptions} {elements : List Element}

theorem ParseOptions.laxer_of_other (o : ParseOptions) :
    { o with requiresOtherClause := false }.Laxer { o with requiresOtherClause := true } :=
  ⟨rfl, Nat.le_refl _, id, fun _ => rfl⟩

theorem Checkpoint.Refused.kind_of_other {p : Checkpoint} {e : ParseError}
    (h : p.Refused message { o with requiresOtherClause := false }
      { o with requiresOtherClause := true } e) : e.kind = .missingOtherClause := by
  cases p with
  | text => cases h.lax.symm.trans h.strict
  | skeleton => cases h.lax.symm.trans h.strict
  | branches => exact h.reported

/-- Every selector has a branch for `other`, at whatever depth it is. -/
def OthersPresent (elements : List Element) : Prop :=
  ∀ selectors, SelectorIn elements selectors → "other" ∈ selectors

theorem passes_other_iff
    (hparse : parse message { o with requiresOtherClause := false } = .ok elements) :
    (∀ p ∈ checkpoints 0 elements, p.passes { o with requiresOtherClause := true } = true) ↔
      OthersPresent elements := by
  constructor
  · intro hpasses selectors hselector
    simpa [Checkpoint.passes] using hpasses _ (branches_mem_checkpoints_iff.mpr hselector)
  · intro hothers p hp
    have hpassed := passes_of_parse hparse p hp
    cases p with
    | text => exact hpassed
    | skeleton => exact hpassed
    | branches selectors =>
        have hother := hothers selectors (branches_mem_checkpoints_iff.mp hp)
        simpa [Checkpoint.passes] using hother

/-- To demand a branch for `other` is a filter.  It lets pass what has the branch
in every selector, and refuses everything else that can be read; what cannot be
read anyway has the same error, or is refused before. -/
theorem other_clause_filters (message : String) (o : ParseOptions) :
    (∀ elements, parse message { o with requiresOtherClause := false } = .ok elements →
      (OthersPresent elements →
        parse message { o with requiresOtherClause := true } = .ok elements) ∧
      (¬ OthersPresent elements →
        FailsWith .missingOtherClause (parse message { o with requiresOtherClause := true }))) ∧
    (∀ e, parse message { o with requiresOtherClause := false } = .error e →
      parse message { o with requiresOtherClause := true } = .error e ∨
        FailsWith .missingOtherClause (parse message { o with requiresOtherClause := true })) ∧
    ∀ e, parse message { o with requiresOtherClause := true } = .error e →
      e.kind ≠ .missingOtherClause →
        parse message { o with requiresOtherClause := false } = .error e := by
  have hlaxer := o.laxer_of_other
  refine ⟨fun elements hparse => ⟨?_, ?_⟩, ?_, ?_⟩
  · intro hothers
    exact parse_same_of_passes hlaxer rfl hparse ((passes_other_iff hparse).mpr hothers)
  · intro hothers
    have hfails := mt (passes_other_iff hparse).mp hothers
    obtain ⟨p, e, -, hstrict, why⟩ := parse_of_not_passes hlaxer hparse hfails
    exact ⟨e, hstrict, why.kind_of_other⟩
  · intro e herror
    rcases parse_same_or_refused hlaxer rfl message with hsame | ⟨e', _, hstrict, why⟩
    · exact .inl (hsame.trans herror)
    · exact .inr ⟨e', hstrict, why.kind_of_other⟩
  · intro e herror hkind
    rcases parse_same_or_refused hlaxer rfl message with hsame | ⟨_, _, hstrict, why⟩
    · exact hsame.symm.trans herror
    · cases herror.symm.trans hstrict
      exact absurd why.kind_of_other hkind

/-- A plural in a tag in a branch lacks the branch that the select around it has. -/
theorem other_clause_filters_nested :
    ∃ elements, parse "{g, select, other {<b>{n, plural, one {x}}</b>}}" {} = .ok elements ∧
      ¬ OthersPresent elements ∧
      FailsWith .missingOtherClause (parse "{g, select, other {<b>{n, plural, one {x}}</b>}}"
        { requiresOtherClause := true }) := by
  have hparse : parse "{g, select, other {<b>{n, plural, one {x}}</b>}}" {} =
      .ok [.selector .select "g" [⟨"other", [.tag "b" [.selector (.plural .cardinal 0) "n"
        [⟨"one", [.literal "x" (.inLine 39 40)], .inLine 38 41⟩] (.inLine 22 42)]
        (.inLine 19 46)], .inLine 18 47⟩] (.inLine 0 48)] := rfl
  have hothers : ¬ OthersPresent [.selector .select "g" [⟨"other", [.tag "b"
      [.selector (.plural .cardinal 0) "n" [⟨"one", [.literal "x" (.inLine 39 40)],
        .inLine 38 41⟩] (.inLine 22 42)] (.inLine 19 46)], .inLine 18 47⟩] (.inLine 0 48)] := by
    intro hothers
    have hother : "other" ∈ ["one"] := by
      apply hothers
      exact ⟨_, _, _, _, _, _, _, .tag (.branch .whole List.mem_cons_self List.mem_cons_self)
        List.mem_cons_self, List.mem_cons_self, rfl⟩
    simp at hother
  exact ⟨_, hparse, hothers, ((other_clause_filters _ {}).1 _ hparse).2 hothers⟩

end Other

end MessagePattern
