/-
# Reading skeletons with their meaning

Skeletons may be interpreted while a message is read, or afterwards from what was
kept of them.  Both give the same: a message whose skeletons have a meaning each
is read into the same tree, with the meanings put in, and any other message has
the error of the first skeleton that has none.

In a message with a further fault it matters that skeletons are interpreted on the
way.  Those in front of the fault are the ones that reading has come past when it
fails.  If one of them has no meaning, the first such is reported, and if all have
one, the fault is.  A skeleton behind the fault is never looked at.

A message is valid if it can be read in this way.
-/

import MessagePattern.Proofs.Screening
import MessagePattern.Proofs.SkeletonOrder
import Mathlib.Data.List.Find

namespace MessagePattern

section Skeletons

variable {message : String} {o : ParseOptions} {elements : List Element}

theorem ParseOptions.laxer_of_skeletons (o : ParseOptions) :
    { o with shouldParseSkeletons := false }.Laxer { o with shouldParseSkeletons := true } :=
  ⟨rfl, Nat.le_refl _, fun _ => rfl, id⟩

/-- Every skeleton of the message has a meaning. -/
def Interpretable (elements : List Element) : Prop :=
  ∀ k ∈ skeletons elements, k.fault? = none

/-- The first skeleton of the message that has no meaning. -/
def firstUninterpretable? (elements : List Element) : Option Skeleton :=
  (skeletons elements).find? (·.fault?.isSome)

/-- Only at a skeleton does its interpretation make a difference. -/
theorem Checkpoint.fails_of_skeletons {p : Checkpoint}
    (h : p.passes { o with shouldParseSkeletons := false } = true) :
    (!p.passes { o with shouldParseSkeletons := true }) =
      p.skeleton?.any fun k => k.fault?.isSome := by
  cases p with
  | text => exact congrArg not h
  | skeleton k => simp [Checkpoint.passes, Checkpoint.skeleton?]
  | branches => exact congrArg not h

/-- The first checkpoint that fails is the first skeleton without a meaning. -/
theorem find?_skeletonsPassed (message : String) (o : ParseOptions) :
    (skeletonsPassed message { o with shouldParseSkeletons := false }).find? (·.fault?.isSome) =
      ((checkpointsPassed message { o with shouldParseSkeletons := false }).find?
        (!·.passes { o with shouldParseSkeletons := true })).bind Checkpoint.skeleton? := by
  have hpassed := passes_of_passed message { o with shouldParseSkeletons := false }
  have hsame := List.find?_congr fun p hp => Checkpoint.fails_of_skeletons (hpassed p hp)
  rw [skeletonsPassed, List.find?_filterMap, hsame]

/-- Whatever is refused for the sake of a meaning is refused at a skeleton. -/
theorem Checkpoint.Refused.skeleton?_eq_some {p : Checkpoint} {e : ParseError}
    (h : p.Refused message { o with shouldParseSkeletons := false }
      { o with shouldParseSkeletons := true } e) :
    ∃ k fault, p.skeleton? = some k ∧ k.WrittenIn message ∧ k.fault? = some fault ∧
      e = ⟨.other, message, k.location, some (.skeleton fault)⟩ := by
  cases p with
  | text => cases h.lax.symm.trans h.strict
  | skeleton k =>
      obtain ⟨hwritten, fault, hfault, he⟩ := h.reported
      exact ⟨k, fault, rfl, hwritten, hfault, he⟩
  | branches => cases h.lax.symm.trans h.strict

/-- Whether the message can be read or not, the skeletons that reading comes past without
interpreting them decide what it is to interpret them on the way. -/
theorem parse_meanings_cases (message : String) (o : ParseOptions) :
    ((∀ k ∈ skeletonsPassed message { o with shouldParseSkeletons := false }, k.fault? = none) ∧
      parse message { o with shouldParseSkeletons := true } =
        withMeanings true <$> parse message { o with shouldParseSkeletons := false }) ∨
    ∃ k fault,
      (skeletonsPassed message { o with shouldParseSkeletons := false }).find?
        (·.fault?.isSome) = some k ∧
      k.WrittenIn message ∧ k.fault? = some fault ∧
      parse message { o with shouldParseSkeletons := true } =
        .error ⟨.other, message, k.location, some (.skeleton fault)⟩ := by
  have hfirst := find?_skeletonsPassed message o
  rcases parse_screened o.laxer_of_skeletons message with ⟨hall, hsame⟩ | ⟨p, e, hp, hstrict, why⟩
  · refine .inl ⟨?_, hsame⟩
    rw [find?_eq_none_of_passes hall, Option.bind_none, List.find?_eq_none] at hfirst
    simpa using hfirst
  · obtain ⟨k, fault, hk, hwritten, hfault, rfl⟩ := why.skeleton?_eq_some
    rw [hp] at hfirst
    exact .inr ⟨k, fault, hfirst.trans hk, hwritten, hfault, hstrict⟩

theorem parse_meanings_eq_ok_iff (message : String) (o : ParseOptions) {meant : List Element} :
    parse message { o with shouldParseSkeletons := true } = .ok meant ↔
      ∃ elements, parse message { o with shouldParseSkeletons := false } = .ok elements ∧
        Interpretable elements ∧ meant = withMeanings true elements := by
  rcases parse_meanings_cases message o with ⟨hall, hsame⟩ | ⟨k, fault, hfirst, -, hfault, hstrict⟩
  · rw [hsame]
    cases hlax : parse message { o with shouldParseSkeletons := false } with
    | error e => simp
    | ok elements =>
        rw [skeletonsPassed_of_parse hlax] at hall
        constructor
        · rintro ⟨⟩
          exact ⟨elements, rfl, hall, rfl⟩
        · rintro ⟨_, ⟨⟩, -, rfl⟩
          rfl
  · rw [hstrict]
    constructor
    · nofun
    · rintro ⟨elements, hlax, hmeanings, -⟩
      rw [skeletonsPassed_of_parse hlax] at hfirst
      have hnone := hmeanings k (List.mem_of_find?_eq_some hfirst)
      cases hnone.symm.trans hfault

theorem parse_meanings_of_not_interpretable
    (hlax : parse message { o with shouldParseSkeletons := false } = .ok elements)
    (h : ¬ Interpretable elements) :
    ∃ k fault, firstUninterpretable? elements = some k ∧ k.fault? = some fault ∧
      parse message { o with shouldParseSkeletons := true } =
        .error ⟨.other, message, k.location, some (.skeleton fault)⟩ := by
  have hpassed := skeletonsPassed_of_parse hlax
  rcases parse_meanings_cases message o with ⟨hall, -⟩ | ⟨k, fault, hfirst, -, hfault, hstrict⟩
  · rw [hpassed] at hall
    exact absurd hall h
  · rw [hpassed] at hfirst
    exact ⟨k, fault, hfirst, hfault, hstrict⟩

/-- A message is valid if it can be read with the meaning of its skeletons. -/
theorem validate_cases (message : String) :
    (validate message = .ok () ∧
      ∃ meant, parse message { shouldParseSkeletons := true } = .ok meant) ∨
    ∃ e, validate message = .error e ∧
      parse message { shouldParseSkeletons := true } = .error e := by
  unfold validate
  cases parse message { shouldParseSkeletons := true } with
  | error e => exact .inr ⟨e, rfl, rfl⟩
  | ok meant => exact .inl ⟨rfl, meant, rfl⟩

theorem validate_eq_ok_iff (message : String) :
    validate message = .ok () ↔
      ∃ elements, parse message {} = .ok elements ∧ Interpretable elements := by
  constructor
  · intro hvalid
    rcases validate_cases message with ⟨-, meant, hmeant⟩ | ⟨e, herror, -⟩
    · obtain ⟨elements, hparse, hmeanings, -⟩ := (parse_meanings_eq_ok_iff message {}).mp hmeant
      exact ⟨elements, hparse, hmeanings⟩
    · cases hvalid.symm.trans herror
  · rintro ⟨elements, hparse, hmeanings⟩
    have hmeant := (parse_meanings_eq_ok_iff message {}).mpr ⟨elements, hparse, hmeanings, rfl⟩
    rcases validate_cases message with ⟨hvalid, -⟩ | ⟨e, -, herror⟩
    · exact hvalid
    · cases hmeant.symm.trans herror

end Skeletons

/-- To interpret skeletons while reading is a filter that puts meanings in.  It
lets pass the messages whose skeletons all have a meaning, and changes nothing
else in them; others have the error of their first skeleton without one.  What
cannot be read anyway has the error of the first skeleton without a meaning that
reading comes past in front of the fault, and the same error if there is none.  The
first is meant in the order of the text.  Valid messages are those that the filter
lets pass. -/
theorem skeletons_filter_and_decorate (message : String) :
    (∀ o : ParseOptions,
      (∀ meant, parse message { o with shouldParseSkeletons := true } = .ok meant ↔
        ∃ elements, parse message { o with shouldParseSkeletons := false } = .ok elements ∧
          Interpretable elements ∧ meant = withMeanings true elements) ∧
      (∀ elements, parse message { o with shouldParseSkeletons := false } = .ok elements →
        ¬ Interpretable elements →
          ∃ k fault, firstUninterpretable? elements = some k ∧ k.fault? = some fault ∧
            parse message { o with shouldParseSkeletons := true } =
              .error ⟨.other, message, k.location, some (.skeleton fault)⟩) ∧
      (∀ e, parse message { o with shouldParseSkeletons := false } = .error e →
        ((∀ k ∈ skeletonsPassed message { o with shouldParseSkeletons := false },
            k.fault? = none) ∧
          parse message { o with shouldParseSkeletons := true } = .error e) ∨
        ∃ k fault,
          (skeletonsPassed message { o with shouldParseSkeletons := false }).find?
            (·.fault?.isSome) = some k ∧
          k.WrittenIn message ∧ k.fault? = some fault ∧
          parse message { o with shouldParseSkeletons := true } =
            .error ⟨.other, message, k.location, some (.skeleton fault)⟩) ∧
      (∀ elements, parse message { o with shouldParseSkeletons := false } = .ok elements →
        skeletonsPassed message { o with shouldParseSkeletons := false } = skeletons elements) ∧
      (skeletonsPassed message { o with shouldParseSkeletons := false }).Pairwise
        Skeleton.Before) ∧
    (validate message = .ok () ↔
      ∃ elements, parse message {} = .ok elements ∧ Interpretable elements) ∧
    ((¬ ∃ elements, parse message {} = .ok elements ∧ Interpretable elements) →
      ∃ e, validate message = .error e ∧
        parse message { shouldParseSkeletons := true } = .error e) := by
  refine ⟨fun o => ⟨fun _ => parse_meanings_eq_ok_iff message o, ?_, ?_,
    fun _ => skeletonsPassed_of_parse, skeletonsPassed_pairwise message _⟩,
    validate_eq_ok_iff message, ?_⟩
  · exact fun _ => parse_meanings_of_not_interpretable
  · intro e hlax
    have hcases := parse_meanings_cases message o
    rwa [hlax] at hcases
  · intro hinvalid
    rcases validate_cases message with ⟨hvalid, -⟩ | herror
    · exact absurd ((validate_eq_ok_iff message).mp hvalid) hinvalid
    · exact herror

/-- The first date is in order, the second asks for an hour that depends on the
locale, and the time behind it is not looked at any more.  It makes no difference
if a fault stands there instead. -/
theorem skeletons_filter_and_decorate_nested :
    (∃ elements,
      parse "{a, date, ::y}<b>{d, date, ::jj }</b>{t, time, ::Y}" {} = .ok elements ∧
      ¬ Interpretable elements ∧
      parse "{a, date, ::y}<b>{d, date, ::jj }</b>{t, time, ::Y}"
          { shouldParseSkeletons := true } =
        .error ⟨.other, "{a, date, ::y}<b>{d, date, ::jj }</b>{t, time, ::Y}", .inLine 27 32,
          some (.skeleton (.unsupportedField 'j' .hour))⟩) ∧
    ∃ e,
      parse "{a, date, ::y}<b>{d, date, ::jj }{t, day, ::Y}" {} = .error e ∧
      e.kind = .invalidArgumentType ∧
      parse "{a, date, ::y}<b>{d, date, ::jj }{t, day, ::Y}" { shouldParseSkeletons := true } =
        .error ⟨.other, "{a, date, ::y}<b>{d, date, ::jj }{t, day, ::Y}", .inLine 27 32,
          some (.skeleton (.unsupportedField 'j' .hour))⟩ := by
  constructor
  · have hparse : parse "{a, date, ::y}<b>{d, date, ::jj }</b>{t, time, ::Y}" {} =
        .ok [.dateTime .date "a" (some (.skeleton ⟨"y", .inLine 10 13, none⟩)) (.inLine 0 14),
          .tag "b" [.dateTime .date "d" (some (.skeleton ⟨"jj", .inLine 27 32, none⟩))
            (.inLine 17 33)] (.inLine 14 37),
          .dateTime .time "t" (some (.skeleton ⟨"Y", .inLine 47 50, none⟩)) (.inLine 37 51)] := rfl
    have hmeanings : ¬ Interpretable
        [.dateTime .date "a" (some (.skeleton ⟨"y", .inLine 10 13, none⟩)) (.inLine 0 14),
          .tag "b" [.dateTime .date "d" (some (.skeleton ⟨"jj", .inLine 27 32, none⟩))
            (.inLine 17 33)] (.inLine 14 37),
          .dateTime .time "t" (some (.skeleton ⟨"Y", .inLine 47 50, none⟩)) (.inLine 37 51)] :=
      fun hmeanings => nomatch hmeanings _ (.tail _ (.head _))
    obtain ⟨k, fault, hfirst, hfault, hstrict⟩ :=
      ((skeletons_filter_and_decorate _).1 {}).2.1 _ hparse hmeanings
    cases hfirst
    cases hfault
    exact ⟨_, hparse, hmeanings, hstrict⟩
  · have hparse : parse "{a, date, ::y}<b>{d, date, ::jj }{t, day, ::Y}" {} =
        .error ⟨.invalidArgumentType, "{a, date, ::y}<b>{d, date, ::jj }{t, day, ::Y}",
          .inLine 37 40, none⟩ := rfl
    have hpassed : skeletonsPassed "{a, date, ::y}<b>{d, date, ::jj }{t, day, ::Y}" {} =
        [.dateTime ⟨"y", .inLine 10 13, none⟩, .dateTime ⟨"jj", .inLine 27 32, none⟩] := by
      decide +kernel
    refine ⟨_, hparse, rfl, ?_⟩
    rcases ((skeletons_filter_and_decorate _).1 {}).2.2.1 _ hparse with
      ⟨hall, -⟩ | ⟨k, fault, hfirst, -, hfault, hstrict⟩
    · rw [hpassed] at hall
      exact nomatch hall _ (.tail _ (.head _))
    · rw [hpassed] at hfirst
      cases hfirst
      cases hfault
      exact hstrict

end MessagePattern
