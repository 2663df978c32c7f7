/-
# What literal text says

A literal is written in units: a doubled apostrophe, a quoted run, or a scalar that
stands for itself.  Which units a text is made of is settled from left to right by
what stands behind each of them, so there is only one way to take it apart.  Here
this is said without reading: a unit has a source and says something, and the
source of a literal is the sources of its units one after the other.

Every literal of a message, at any depth, says what the units of its part of the
message say.  Literals that were written as self-closing tags are the exception;
they are what they look like, without the white space.
-/

import MessagePattern.Proofs.Texts

namespace MessagePattern

open Cursor

/-! ## Units -/

/-- Whether quoted text begins with an apostrophe in front of `c`. -/
def startsQuote (inPlural : Bool) (c : Char) : Bool :=
  c ∈ ['{', '}', '<', '>'] || c == '#' && inPlural

/-- What literal text is made of. -/
inductive LiteralUnit
  /-- A doubled apostrophe. -/
  | apostrophe
  /-- A quoted run, with the apostrophe that closes it or without. -/
  | quoted (said : List Char) (closed : Bool)
  /-- Anything else. -/
  | scalar (c : Char)
  deriving DecidableEq

namespace LiteralUnit

/-- How a unit is written. -/
def source : LiteralUnit → List Char
  | .apostrophe => ['\'', '\'']
  | .quoted said closed => '\'' :: (doubleApostrophes said ++ if closed then ['\''] else [])
  | .scalar c => [c]

/-- What a unit says. -/
def said : LiteralUnit → List Char
  | .apostrophe => ['\'']
  | .quoted said _ => said
  | .scalar c => [c]

/-- The unit is what is to be read first in front of `behind`: a quoted run begins
with syntax and goes on to an apostrophe that is not doubled, or to the end of
the message; and an apostrophe stands for itself only if it neither begins a
quoted run nor is doubled. -/
def IsFirst (inPlural : Bool) : LiteralUnit → List Char → Prop
  | .apostrophe, _ => True
  | .quoted said closed, behind => said.head?.any (startsQuote inPlural) = true ∧
      if closed then behind.head? ≠ some '\'' else behind = []
  | .scalar c, behind => c = '\'' →
      behind.head? ≠ some '\'' ∧ behind.head?.any (startsQuote inPlural) = false

/-- A scalar that stands for itself is not syntax in front of `behind`. -/
def IsText (o : ParseOptions) (level : Nat) (inPlural : Bool) : LiteralUnit → List Char → Prop
  | .scalar c, behind => c ≠ '{' ∧ (c = '}' → level = 0) ∧ (c = '#' → inPlural = false) ∧
      (c = '<' → o.ignoreTag = false → behind.head?.any isTagStart = false)
  | _, _ => True

end LiteralUnit

/-- How units are written one after the other. -/
def unitsSource (units : List LiteralUnit) : List Char := units.flatMap LiteralUnit.source

/-- What units say one after the other. -/
def unitsSaid (units : List LiteralUnit) : List Char := units.flatMap LiteralUnit.said

/-- `P` holds of each unit and of all that stands behind it. -/
def EachUnit (P : LiteralUnit → List Char → Prop) (behind : List Char) : List LiteralUnit → Prop
  | [] => True
  | u :: units => P u (unitsSource units ++ behind) ∧ EachUnit P behind units

/-- A part of a message, in front of `behind`, is made of the units. -/
structure MadeOf (inPlural : Bool) (part behind : List Char) (units : List LiteralUnit) : Prop where
  source : unitsSource units = part
  first : EachUnit (LiteralUnit.IsFirst inPlural) behind units

@[simp] theorem unitsSource_cons (u : LiteralUnit) (units : List LiteralUnit) :
    unitsSource (u :: units) = u.source ++ unitsSource units :=
  List.flatMap_cons

@[simp] theorem unitsSaid_cons (u : LiteralUnit) (units : List LiteralUnit) :
    unitsSaid (u :: units) = u.said ++ unitsSaid units :=
  List.flatMap_cons

/-! ## There is one way to take a text apart -/

theorem startsQuote_apostrophe (inPlural : Bool) : startsQuote inPlural '\'' = false := by
  simp [startsQuote]

/-- The text behind what a quoted run says: its closing apostrophe, or nothing. -/
def StopsQuote (tail : List Char) : Prop :=
  tail = [] ∨ ∃ behind, tail = '\'' :: behind ∧ behind.head? ≠ some '\''

theorem StopsQuote.not_double {tail text : List Char} {c : Char} (h : StopsQuote tail)
    (said : List Char) : tail ≠ doubleApostrophes (c :: said) ++ text := by
  rintro rfl
  by_cases hc : c = '\''
  · simp [StopsQuote, doubleApostrophes, hc] at h
  · simp [StopsQuote, doubleApostrophes, hc] at h

/-- A quoted run goes as far as it can. -/
theorem quotedRun_unique {said said' tail tail' : List Char} (h : StopsQuote tail)
    (h' : StopsQuote tail')
    (heq : doubleApostrophes said ++ tail = doubleApostrophes said' ++ tail') :
    said = said' ∧ tail = tail' := by
  induction said generalizing said' with
  | nil =>
      cases said' with
      | nil => exact ⟨rfl, heq⟩
      | cons c said' => exact absurd heq (h.not_double said')
  | cons c said ih =>
      cases said' with
      | nil => exact absurd heq.symm (h'.not_double said)
      | cons c' said' =>
          have hhead := congrArg List.head? heq
          simp only [List.head?_append, head?_doubleApostrophes, List.head?_cons,
            Option.some_or, Option.some.injEq] at hhead
          subst hhead
          have htail : doubleApostrophes said ++ tail = doubleApostrophes said' ++ tail' := by
            by_cases hc : c = '\''
            · simpa [doubleApostrophes, hc] using heq
            · simpa [doubleApostrophes, hc] using heq
          obtain ⟨rfl, hstop⟩ := ih htail
          exact ⟨rfl, hstop⟩

section First

variable {inPlural : Bool}

/-- A text that a quoted run begins with does not begin with an apostrophe. -/
theorem head?_ne_apostrophe {text : List Char}
    (h : text.head?.any (startsQuote inPlural) = true) : text.head? ≠ some '\'' := by
  intro hhead
  rw [hhead, Option.any_some, startsQuote_apostrophe] at h
  cases h

/-- What a quoted run begins with, it says. -/
theorem startsQuote_quotedRun (said : List Char) {tail : List Char} (htail : StopsQuote tail) :
    (doubleApostrophes said ++ tail).head?.any (startsQuote inPlural) =
      said.head?.any (startsQuote inPlural) := by
  rw [List.head?_append, head?_doubleApostrophes]
  cases said with
  | cons c said => rfl
  | nil =>
      rcases htail with rfl | ⟨behind, rfl, -⟩
      · rfl
      · exact startsQuote_apostrophe inPlural

namespace LiteralUnit

/-- What follows the content of a quoted unit stops it. -/
theorem IsFirst.stopsQuote {said behind : List Char} {closed : Bool}
    (h : (quoted said closed).IsFirst inPlural behind) :
    StopsQuote ((if closed then ['\''] else []) ++ behind) := by
  cases closed with
  | false => exact .inl (by simpa using h.2)
  | true => exact .inr ⟨behind, rfl, by simpa using h.2⟩

/-- A quoted unit is still seen to begin with syntax when it is written. -/
theorem IsFirst.head_quoted {said behind : List Char} {closed : Bool}
    (h : (quoted said closed).IsFirst inPlural behind) :
    (doubleApostrophes said ++ ((if closed then ['\''] else []) ++ behind)).head?.any
      (startsQuote inPlural) = true :=
  (startsQuote_quotedRun said h.stopsQuote).trans h.1

/-- Where a quoted unit is to be read first, no other unit is. -/
theorem IsFirst.quoted_unique {said behind behind' : List Char} {closed : Bool} {u : LiteralUnit}
    (h : (quoted said closed).IsFirst inPlural behind) (h' : u.IsFirst inPlural behind')
    (heq : (quoted said closed).source ++ behind = u.source ++ behind') :
    quoted said closed = u ∧ behind = behind' := by
  have hhead := h.head_quoted
  simp only [source, List.cons_append, List.append_assoc] at heq
  cases u with
  | apostrophe =>
      rw [(List.cons.inj heq).2] at hhead
      exact absurd rfl (head?_ne_apostrophe hhead)
  | scalar c =>
      obtain ⟨rfl, htail⟩ := List.cons.inj heq
      rw [htail] at hhead
      exact absurd hhead (Bool.eq_false_iff.mp (h' rfl).2)
  | quoted said' closed' =>
      simp only [List.cons_append, List.append_assoc, List.cons.injEq, true_and] at heq
      obtain ⟨rfl, htail⟩ := quotedRun_unique h.stopsQuote h'.stopsQuote heq
      cases closed with
      | false =>
          cases closed' with
          | false => exact ⟨rfl, htail⟩
          | true =>
              have hnil : behind = [] := h.2
              simp [hnil] at htail
      | true =>
          cases closed' with
          | false =>
              have hnil : behind' = [] := h'.2
              simp [hnil] at htail
          | true => exact ⟨rfl, (List.cons.inj htail).2⟩

/-- Only one unit can be the first of a text. -/
theorem IsFirst.unique {u u' : LiteralUnit} {behind behind' : List Char}
    (h : u.IsFirst inPlural behind) (h' : u'.IsFirst inPlural behind')
    (heq : u.source ++ behind = u'.source ++ behind') : u = u' ∧ behind = behind' := by
  match u, u' with
  | .quoted _ _, _ => exact h.quoted_unique h' heq
  | _, .quoted _ _ =>
      obtain ⟨hunit, hbehind⟩ := h'.quoted_unique h heq.symm
      exact ⟨hunit.symm, hbehind.symm⟩
  | .apostrophe, .apostrophe => exact ⟨rfl, List.append_cancel_left heq⟩
  | .apostrophe, .scalar c =>
      obtain ⟨rfl, htail⟩ := List.cons.inj heq
      have hbehind : '\'' :: behind = behind' := htail
      exact absurd (hbehind ▸ rfl) (h' rfl).1
  | .scalar c, .apostrophe =>
      obtain ⟨rfl, htail⟩ := List.cons.inj heq
      have hbehind : behind = '\'' :: behind' := htail
      exact absurd (hbehind ▸ rfl) (h rfl).1
  | .scalar c, .scalar c' =>
      obtain ⟨rfl, htail⟩ := List.cons.inj heq
      exact ⟨rfl, htail⟩

theorem source_ne_nil (u : LiteralUnit) : u.source ≠ [] := by
  cases u <;> simp [source]

end LiteralUnit

/-- A text is taken apart into units in one way only. -/
theorem MadeOf.unique {part behind : List Char} {units units' : List LiteralUnit}
    (h : MadeOf inPlural part behind units) (h' : MadeOf inPlural part behind units') :
    units = units' := by
  induction units generalizing part units' with
  | nil =>
      cases units' with
      | nil => rfl
      | cons u units' =>
          have hnil := h.source.trans h'.source.symm
          simp [unitsSource, u.source_ne_nil] at hnil
  | cons u units ih =>
      cases units' with
      | nil =>
          have hnil := h.source.trans h'.source.symm
          simp [unitsSource, u.source_ne_nil] at hnil
      | cons u' units' =>
          have heq := congrArg (· ++ behind) (h.source.trans h'.source.symm)
          simp only [unitsSource_cons, List.append_assoc] at heq
          obtain ⟨rfl, htail⟩ := h.first.1.unique h'.first.1 heq
          rw [ih ⟨rfl, h.first.2⟩ ⟨(List.append_cancel_right htail).symm, h'.first.2⟩]

end First

/-! ## Reading goes unit by unit -/

section Reading

variable {o : ParseOptions} {s : Scope} {level : Nat}

theorem opensQuote_eq (s : Scope) : s.opensQuote = startsQuote s.plural := by
  funext c
  simp [Scope.opensQuote, startsQuote, Bool.or_assoc, Bool.beq_eq_decide_eq]

/-- A scalar that stands for itself is one that does not end the literal. -/
theorem isText_scalar_iff (hlevel : s.nested = true ↔ 0 < level) (c : Char) (behind : List Char) :
    (LiteralUnit.scalar c).IsText o level s.plural behind ↔
      Scope.endsLiteral o s c behind = false := by
  simp only [LiteralUnit.IsText, Scope.endsLiteral]
  split
  · simp
  · have hnested : s.nested = false ↔ level = 0 := by
      rw [← Bool.not_eq_true, hlevel, Nat.not_lt, Nat.le_zero]
    simp [hnested]
  · simp
  · simp
  · next hbrace hclose hsign hangle =>
      simp_all

/-- Reading literal text reads its first unit. -/
theorem literalText_unit (hlevel : s.nested = true ↔ 0 < level) {u : LiteralUnit}
    {behind : List Char} (hfirst : u.IsFirst s.plural behind)
    (htext : u.IsText o level s.plural behind) :
    literalText o s false (u.source ++ behind) =
      (u.said ++ (literalText o s false behind).1,
        u.source.length + (literalText o s false behind).2) := by
  cases u with
  | apostrophe =>
      simp only [LiteralUnit.source, LiteralUnit.said, List.cons_append, List.nil_append,
        literalText_pair, List.length_cons, List.length_nil, Nat.zero_add, Nat.add_comm]
  | quoted said closed =>
      have hopen := hfirst.head_quoted
      rw [← opensQuote_eq] at hopen
      rw [LiteralUnit.source, List.cons_append, List.append_assoc, literalText_open o s hopen,
        literalText_double_quoted]
      cases closed with
      | false =>
          have hnil : behind = [] := hfirst.2
          simp [hnil, literalText, LiteralUnit.said]
      | true =>
          have hclosed : behind.head? ≠ some '\'' := hfirst.2
          simp [literalText_close o s hclosed, LiteralUnit.said]
          omega
  | scalar c =>
      have hends := (isText_scalar_iff hlevel c behind).mp htext
      have hpair : ¬ (c = '\'' ∧ behind.head? = some '\'') := fun h => (hfirst h.1).1 h.2
      have hopen : ¬ (c = '\'' ∧ behind.head?.any s.opensQuote = true) := by
        rw [opensQuote_eq]
        exact fun h => Bool.eq_false_iff.mp (hfirst h.1).2 h.2
      simp only [LiteralUnit.source, LiteralUnit.said, List.cons_append, List.nil_append,
        literalText_plain o s hpair hopen hends, List.length_cons, List.length_nil, Nat.zero_add,
        Nat.add_comm]

/-- Reading literal text reads its units, up to what ends it. -/
theorem literalText_units (hlevel : s.nested = true ↔ 0 < level) {units : List LiteralUnit}
    {behind : List Char} (hfirst : EachUnit (LiteralUnit.IsFirst s.plural) behind units)
    (htext : EachUnit (LiteralUnit.IsText o level s.plural) behind units)
    (hends : EndsLiteral o s behind) :
    literalText o s false (unitsSource units ++ behind) =
      (unitsSaid units, (unitsSource units).length) := by
  induction units with
  | nil => exact literalText_of_endsLiteral hends
  | cons u units ih =>
      rw [unitsSource_cons, List.append_assoc, literalText_unit hlevel hfirst.1 htext.1,
        ih hfirst.2 htext.2, unitsSaid_cons, List.length_append]

/-- Behind the apostrophe that opens a quoted run stands its content, and what
stops it. -/
theorem exists_quotedRun :
    ∀ text : List Char, ∃ said tail, text = doubleApostrophes said ++ tail ∧ StopsQuote tail
  | [] => ⟨[], [], rfl, .inl rfl⟩
  | c :: text => by
      by_cases hc : c = '\''
      · subst hc
        match text with
        | [] => exact ⟨[], ['\''], rfl, .inr ⟨[], rfl, by simp⟩⟩
        | next :: text =>
            by_cases hnext : next = '\''
            · obtain ⟨said, tail, rfl, htail⟩ := exists_quotedRun text
              exact ⟨'\'' :: said, tail, by simp [doubleApostrophes, hnext], htail⟩
            · exact ⟨[], '\'' :: next :: text, rfl, .inr ⟨next :: text, rfl, by simp [hnext]⟩⟩
      · obtain ⟨said, tail, rfl, htail⟩ := exists_quotedRun text
        exact ⟨c :: said, tail, by simp [doubleApostrophes, hc], htail⟩

/-- Where a literal goes on there is a unit to be read. -/
theorem exists_firstUnit (hlevel : s.nested = true ↔ 0 < level) {text : List Char}
    (h : ¬ EndsLiteral o s text) :
    ∃ (u : LiteralUnit) (behind : List Char), text = u.source ++ behind ∧
      u.IsFirst s.plural behind ∧ u.IsText o level s.plural behind := by
  cases text with
  | nil => exact absurd trivial h
  | cons c text =>
      have htext := (isText_scalar_iff hlevel c text).mpr (Bool.eq_false_iff.mpr h)
      by_cases hc : c = '\''
      · subst hc
        by_cases hopen : text.head?.any (startsQuote s.plural) = true
        · obtain ⟨said, tail, rfl, htail⟩ := exists_quotedRun text
          rw [startsQuote_quotedRun said htail] at hopen
          rcases htail with rfl | ⟨behind, rfl, hclosed⟩
          · exact ⟨.quoted said false, [], by simp [LiteralUnit.source], ⟨hopen, rfl⟩, trivial⟩
          · exact ⟨.quoted said true, behind, by simp [LiteralUnit.source], ⟨hopen, hclosed⟩,
              trivial⟩
        by_cases hpair : text.head? = some '\''
        · obtain ⟨behind, rfl⟩ : ∃ behind, text = '\'' :: behind := by
            cases text <;> simp_all
          exact ⟨.apostrophe, behind, rfl, trivial, trivial⟩
        · exact ⟨.scalar '\'', text, rfl, fun _ => ⟨hpair, Bool.eq_false_iff.mpr hopen⟩, htext⟩
      · exact ⟨.scalar c, text, rfl, fun hquote => absurd hquote hc, htext⟩

/-- Every text begins with units that make up a literal, up to what ends it. -/
theorem exists_units (hlevel : s.nested = true ↔ 0 < level) (text : List Char) :
    ∃ units behind, text = unitsSource units ++ behind ∧
      EachUnit (LiteralUnit.IsFirst s.plural) behind units ∧
      EachUnit (LiteralUnit.IsText o level s.plural) behind units ∧ EndsLiteral o s behind := by
  induction hn : text.length using Nat.strong_induction_on generalizing text with
  | _ n ih =>
  subst hn
  by_cases hends : EndsLiteral o s text
  · exact ⟨[], text, rfl, trivial, trivial, hends⟩
  · obtain ⟨u, rest, rfl, hfirst, htext⟩ := exists_firstUnit hlevel hends
    have hlt : rest.length < (u.source ++ rest).length := by
      have hpos := List.length_pos_iff.mpr u.source_ne_nil
      rw [List.length_append]
      omega
    obtain ⟨units, behind, rfl, hfirsts, htexts, hstop⟩ := ih _ hlt rest rfl
    refine ⟨u :: units, behind, ?_, ⟨hfirst, hfirsts⟩, ⟨htext, htexts⟩, hstop⟩
    rw [unitsSource_cons, List.append_assoc]

end Reading

/-! ## What literals say -/

/-- A literal was written as a self-closing tag, with white space behind its name
that the literal leaves out. -/
def FromSelfClosingTag (o : ParseOptions) (part : List Char) (text : String) : Prop :=
  o.ignoreTag = false ∧ ∃ name space, isTagName name = true ∧ space.all isPatternSpace = true ∧
    part = '<' :: (name ++ (space ++ ['/', '>'])) ∧ text.toList = '<' :: (name ++ ['/', '>'])

/-- A literal says what its part of the message says, which is made of units in
one way only. -/
def Unquotes (o : ParseOptions) (level : Nat) (inPlural : Bool) (part behind : List Char)
    (text : String) : Prop :=
  ∃ units, MadeOf inPlural part behind units ∧
    (∀ units', MadeOf inPlural part behind units' → units' = units) ∧
    EachUnit (LiteralUnit.IsText o level inPlural) behind units ∧
    text.toList = unitsSaid units

/-- How a literal was read: as a self-closing tag, or unit by unit. -/
theorem ElementRead.literal_cases {R : NestedRelation} {o : ParseOptions} {s : Scope} {level : Nat}
    (hlevel : s.nested = true ↔ 0 < level) {c d : Cursor} {text : String} {location : Location}
    (h : ElementRead R o s c (.literal text location) d) :
    location = d.since c.position ∧ ∃ part, c.Passes part d ∧
      (FromSelfClosingTag o part text ∨ Unquotes o level s.plural part d.rest text) := by
  generalize he : Element.literal text location = e at h
  cases h with
  | literal begins =>
      obtain ⟨units, behind, hrest, hfirst, htext, hends⟩ := exists_units (o := o) hlevel c.rest
      have hread := literalText_units hlevel hfirst htext hends
      have hpasses := passes_advance hrest
      rw [← hrest] at hread
      simp only [readLiteral, hread] at he ⊢
      cases he
      have hbehind : (c.advance (unitsSource units).length).rest = behind :=
        rest_advance_append hrest
      refine ⟨rfl, _, hpasses, .inr ⟨units, ?_⟩⟩
      rw [hbehind]
      have hmade : MadeOf s.plural (unitsSource units) behind units := ⟨rfl, hfirst⟩
      exact ⟨hmade, fun units' hmade' => hmade'.unique hmade, htext, String.toList_ofList⟩
  | selfClosing tags begins closed =>
      cases he
      obtain ⟨letter, rest, hbegins, hletter⟩ := begins
      refine ⟨rfl, _, (passes_bump hbegins).trans ((passes_tagName _).trans
        ((passes_skipSpace _).trans (.of_skip? closed))), .inl ⟨tags, _, _, ?_, ?_, rfl, ?_⟩⟩
      · exact isTagName_tagName (rest_bump_cons hbegins) hletter
      · exact List.all_takeWhile
      · simp
  | _ => cases he

/-- Outside of everything, only an opening brace or an angle bracket ends a
literal. -/
theorem eq_nil_of_endsLiteral_top {o : ParseOptions} {text : List Char}
    (h : EndsLiteral o .top text) (hbrace : '{' ∉ text) (hangle : '<' ∉ text) : text = [] := by
  cases text with
  | nil => rfl
  | cons c text =>
      simp only [EndsLiteral, Scope.endsLiteral] at h
      split at h
      · exact absurd List.mem_cons_self hbrace
      · cases h
      · cases h
      · exact absurd List.mem_cons_self hangle
      · cases h

/-- A message without opening braces and angle brackets is a single literal. -/
theorem parse_eq_literal {message : String} (o : ParseOptions) (hne : message ≠ "")
    (hbrace : '{' ∉ message.toList) (hangle : '<' ∉ message.toList) :
    ∃ text, parse message o = .ok [.literal text ⟨.behind [], .behind message.toList⟩] := by
  obtain ⟨c, hc⟩ : ∃ c, c = Cursor.start message.toList := ⟨_, rfl⟩
  have hbegins : ¬ EndsLiteral o .top c.rest := by
    rw [hc]
    exact fun hends =>
      hne (String.toList_eq_nil_iff.mp (eq_nil_of_endsLiteral_top hends hbrace hangle))
  -- What is left behind the literal ends it, so nothing is left.
  have hrest : (readLiteral o .top c).2.rest = [] := by
    rw [readLiteral, rest_advance, hc]
    exact eq_nil_of_endsLiteral_top (endsLiteral_drop_literalText o .top false _)
      (fun hmem => hbrace (List.mem_of_mem_drop hmem))
      (fun hmem => hangle (List.mem_of_mem_drop hmem))
  have hread : readAll o message.toList =
      .ok ([(readLiteral o .top c).1], (readLiteral o .top c).2) := by
    rw [readAll, ← hc]
    exact readMessage_succ_iff.mpr ⟨.cons (.literal hbegins) (.nil _), hrest ▸ .message⟩
  obtain ⟨before, hbefore, hposition⟩ : (readLiteral o .top c).2.IsIn message.toList :=
    Reaches.isIn (reaches_advance _ c) (hc ▸ isIn_start _)
  rw [hrest, List.append_nil] at hbefore
  obtain ⟨text, hliteral⟩ : ∃ text, (readLiteral o .top c).1 =
      .literal text ⟨c.position, (readLiteral o .top c).2.position⟩ := ⟨_, rfl⟩
  refine ⟨text, ?_⟩
  rw [parse, hread, hliteral, hposition, ← hbefore, hc]
  rfl

/-- Every literal of a message, at any depth, says what its part of the message
says, and a message without syntax is a single literal. -/
theorem literals_unquoted (message : String) (o : ParseOptions) :
    (∀ elements, parse message o = .ok elements →
      ∀ level inPlural texts, TextAt elements level inPlural texts →
        ∀ text location, .literal text location ∈ texts →
          ∃ before part behind, message.toList = before ++ (part ++ behind) ∧
            location = ⟨.behind before, .behind (before ++ part)⟩ ∧
            (FromSelfClosingTag o part text ∨ Unquotes o level inPlural part behind text)) ∧
      (message ≠ "" → '{' ∉ message.toList → '<' ∉ message.toList →
        ∃ text, parse message o = .ok [.literal text ⟨.behind [], .behind message.toList⟩]) := by
  constructor
  · intro elements hparse level inPlural texts htexts text location hmem
    obtain ⟨stop, hall⟩ := readAll_of_parse hparse
    obtain ⟨budget, s, c, d, hread, hc, rfl, hlevel⟩ := exists_reading hall htexts
    obtain ⟨first, last, hfirst, hliteral⟩ := hread.of_mem reaches_of_readMessage hmem
    obtain ⟨rfl, part, hpart, hsays⟩ := hliteral.literal_cases hlevel
    obtain ⟨before, hmessage, hposition⟩ := hfirst.isIn hc
    refine ⟨before, part, last.rest, ?_, ?_, hsays⟩
    · rw [hmessage, hpart.rest]
    · rw [Cursor.since, hpart.position, hposition, Position.behind_after]
  · exact fun hne hbrace hangle => parse_eq_literal o hne hbrace hangle

/-- A number sign and an apostrophe in a quoted run of a plural branch, and a
message of which nothing is syntax. -/
theorem literals_unquoted_sign :
    (∃ elements, parse "\x7bn,plural,other\x7b'#'''s\x7d\x7d" {} = .ok elements ∧
      TextAt elements 1 true [.literal "#'s" (.inLine 16 22)] ∧
      ∃ before part behind,
        "\x7bn,plural,other\x7b'#'''s\x7d\x7d".toList = before ++ (part ++ behind) ∧
        Location.inLine 16 22 = ⟨.behind before, .behind (before ++ part)⟩ ∧
        (FromSelfClosingTag {} part "#'s" ∨ Unquotes {} 1 true part behind "#'s")) ∧
      ∃ text, parse "it's \x7d" {} =
        .ok [.literal text ⟨.behind [], .behind "it's \x7d".toList⟩] := by
  have hparse : parse "\x7bn,plural,other\x7b'#'''s\x7d\x7d" {} =
      .ok [.selector (.plural .cardinal 0) "n"
        [⟨"other", [.literal "#'s" (.inLine 16 22)], .inLine 15 23⟩] (.inLine 0 24)] := rfl
  have htext : TextAt [.selector (.plural .cardinal 0) "n"
      [⟨"other", [.literal "#'s" (.inLine 16 22)], .inLine 15 23⟩] (.inLine 0 24)] 1 true
      [.literal "#'s" (.inLine 16 22)] :=
    .branch .whole List.mem_cons_self List.mem_cons_self
  refine ⟨⟨_, hparse, htext, ?_⟩, ?_⟩
  · exact (literals_unquoted _ {}).1 _ hparse _ _ _ htext _ _ List.mem_cons_self
  · exact (literals_unquoted "it's \x7d" {}).2 (by decide) (by decide) (by decide)

end MessagePattern
