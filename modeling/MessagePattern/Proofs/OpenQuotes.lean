/-
# Quoted text that does not end

Two readers look for the end of quoted text: the one that finds out where a style
ends, and the one that cuts the pattern of a date or time into fields.  They go
about it differently, but the second never has anything to complain about.  A
style that runs into the end of the message inside quoted text is refused by the
first, whatever the style is for and whether or not its meaning is asked for.
-/

import Mathlib.Algebra.Ring.Parity
import MessagePattern.Proofs.Exactness
import MessagePattern.Proofs.FaultKinds

namespace MessagePattern

/-! ## Styles that run into the end of the message -/

/-- The style that goes on with `text` is closed somewhere in it. -/
def StyleCloses (depth : Nat) (quoted : Bool) (text : List Char) : Prop :=
  ∃ style tail, text = style ++ '}' :: tail ∧ styleMatches depth quoted style = true

theorem not_styleCloses_nil (depth : Nat) (quoted : Bool) : ¬ StyleCloses depth quoted [] := by
  rintro ⟨style, tail, htext, -⟩
  simp at htext

/-- A scalar that does not close the style leaves the question to what follows. -/
theorem styleCloses_cons {c : Char} {text : List Char} {depth : Nat} {quoted : Bool}
    (depth' : Nat) (quoted' : Bool)
    (hstep : ∀ style, styleMatches depth quoted (c :: style) = styleMatches depth' quoted' style)
    (hopen : c = '}' → styleMatches depth quoted [] = false) :
    StyleCloses depth quoted (c :: text) ↔ StyleCloses depth' quoted' text := by
  constructor
  · rintro ⟨style, tail, htext, hmatch⟩
    cases style with
    | nil =>
        obtain ⟨rfl, -⟩ := List.cons.inj htext
        simp [hopen rfl] at hmatch
    | cons first style =>
        obtain ⟨rfl, rfl⟩ := List.cons.inj htext
        exact ⟨style, tail, rfl, hstep style ▸ hmatch⟩
  · rintro ⟨style, tail, rfl, hmatch⟩
    exact ⟨c :: style, tail, rfl, (hstep style).trans hmatch⟩

/-- The scanner of styles complains exactly if the style is not closed and the
text ends inside quotes. -/
theorem scanStyle_eq_error_iff {text : List Char} {depth passed : Nat} {quote : Option Nat} :
    (∃ start, scanStyle depth quote passed text = .error start) ↔
      ¬ StyleCloses depth quote.isSome text ∧
        (quote.isSome = true ↔ Even (text.count '\'')) := by
  induction text generalizing depth passed quote with
  | nil => cases quote <;> simp [scanStyle, not_styleCloses_nil]
  | cons c text ih =>
      by_cases hquote : c = '\''
      · -- An apostrophe changes sides, and so does the number of them.
        subst hquote
        have hstep (style : List Char) : styleMatches depth quote.isSome ('\'' :: style) =
            styleMatches depth (!quote.isSome) style := by
          simp [styleMatches]
        rw [styleCloses_cons _ _ hstep (by simp), List.count_cons_self, Nat.even_add_one]
        cases quote with
        | some start => simpa [scanStyle] using @ih depth (passed + 1) none
        | none => simpa [scanStyle] using @ih depth (passed + 1) (some (passed + 1))
      rw [List.count_cons_of_ne hquote]
      cases quote with
      | some start =>
          rw [styleCloses_cons depth true (by simp [styleMatches, hquote]) (by simp [styleMatches])]
          simp only [scanStyle, if_neg hquote]
          exact ih
      | none =>
          by_cases hopen : c = '{'
          · subst hopen
            rw [styleCloses_cons (depth + 1) false (by simp [styleMatches]) (by simp)]
            simp only [scanStyle, if_neg hquote, ↓reduceIte]
            exact ih
          by_cases hclose : c = '}'
          · subst hclose
            cases depth with
            | zero =>
                have hcloses : StyleCloses 0 false ('}' :: text) := ⟨[], text, rfl, rfl⟩
                simp [scanStyle, hcloses]
            | succ depth =>
                rw [styleCloses_cons depth false (by simp [styleMatches]) (by simp [styleMatches])]
                simp only [scanStyle, if_neg hquote, if_neg hopen, ↓reduceIte]
                exact ih
          · rw [styleCloses_cons depth false (by simp [styleMatches, hquote, hopen, hclose])
              (absurd · hclose)]
            simp only [scanStyle, if_neg hquote, if_neg hopen, if_neg hclose]
            exact ih

/-! ## Who reports them -/

/-- The text of a style runs into the end of the message inside quotes. -/
def LeavesQuoteOpen (text : List Char) : Prop :=
  ¬ StyleCloses 0 false text ∧ Odd (text.count '\'')

section Reports

variable {α β : Type}

/-- The outcome is a failure of this kind. -/
def Reports (kind : ErrorKind) (outcome : Except Failure α) : Prop :=
  ∃ f, outcome = .error f ∧ f.kind = kind

/-- A kind of failure that later steps do not have is reported by the first step. -/
theorem reports_bind_iff {kind : ErrorKind} {x : Except Failure α} {next : α → Except Failure β}
    (hnext : ∀ a, x = .ok a → FaultsObey (·.kind ≠ kind) (next a)) :
    Reports kind (x >>= next) ↔ Reports kind x := by
  cases x with
  | error f => simp [Reports, bind, Except.bind]
  | ok a =>
      constructor
      · rintro ⟨f, hf, hkind⟩
        exact absurd hkind (hnext a rfl f hf)
      · rintro ⟨f, hf, -⟩
        cases hf

end Reports

theorem reports_readStyle_iff (c : Cursor) :
    Reports .unclosedQuoteInArgumentStyle (readStyle c) ↔ LeavesQuoteOpen c.rest := by
  have hscan : (∃ start, scanStyle 0 none 0 c.rest = .error start) ↔ LeavesQuoteOpen c.rest := by
    rw [scanStyle_eq_error_iff, LeavesQuoteOpen, ← Nat.not_even_iff_odd]
    simp
  rw [← hscan]
  have hstyle : Reports .unclosedQuoteInArgumentStyle (readStyle c) ↔
      Reports .unclosedQuoteInArgumentStyle (readStyleText c) := by
    apply reports_bind_iff
    rintro ⟨text, stop⟩ -
    simp only
    split
    · exact .error (by simp)
    · exact .ok _
  rw [hstyle]
  unfold readStyleText
  cases scanStyle 0 none 0 c.rest with
  | error start => simp [Reports, Cursor.fail]
  | ok n => simp [Reports]

theorem reports_readOptionalStyle_iff {c comma : Cursor}
    (hcomma : c.skipSpace.skip? [','] = some comma) :
    Reports .unclosedQuoteInArgumentStyle (readOptionalStyle c) ↔
      LeavesQuoteOpen comma.skipSpace.rest := by
  rw [← reports_readStyle_iff]
  simp only [readOptionalStyle, hcomma]
  exact reports_bind_iff fun _ _ => .ok _

theorem closeBrace_reports_no_quote (c : Cursor) (opening : Position) :
    FaultsObey (·.kind ≠ .unclosedQuoteInArgumentStyle) (c.closeBrace opening) := by
  unfold Cursor.closeBrace Cursor.expect
  split
  · exact .ok _
  · exact .error (by simp)

theorem numberStyle_reports_no_quote (o : ParseOptions) (text : List Char) (location : Location)
    (c : Cursor) :
    FaultsObey (·.kind ≠ .unclosedQuoteInArgumentStyle) (numberStyle o text location c) := by
  unfold numberStyle
  repeat' split
  all_goals first | exact .ok _ | exact .error (by simp)

theorem dateTimeStyle_reports_no_quote (o : ParseOptions) (text : List Char)
    (location element : Location) (c : Cursor) :
    FaultsObey (·.kind ≠ .unclosedQuoteInArgumentStyle)
      (dateTimeStyle o text location element c) := by
  unfold dateTimeStyle
  split
  · exact .ok _
  split
  · exact .error (by simp)
  split
  · split
    · next e _ => exact .error (by cases e <;> simp [dateTimeErrorKind])
    · exact .ok _
  · exact .ok _

/-- The types of argument that may have a style. -/
def ArgumentType.isStyled : ArgumentType → Bool
  | .number => true
  | .dateTime _ => true
  | .selector _ => false

/-- An argument whose style leaves quoted text open is refused for it, and no other
is. -/
theorem reports_readArgument_iff {inner : NestedReader} {o : ParseOptions} {s : Scope}
    {c typed comma : Cursor} {name : String} {type : ArgumentType}
    (hhead : TypeRead c name type typed) (hstyled : type.isStyled = true)
    (hcomma : typed.skipSpace.skip? [','] = some comma) :
    Reports .unclosedQuoteInArgumentStyle (readArgument inner o s c) ↔
      LeavesQuoteOpen comma.skipSpace.rest := by
  rw [readArgument_of_typed hhead, ← reports_readOptionalStyle_iff hcomma]
  cases type with
  | number =>
      apply reports_bind_iff
      rintro ⟨text, styled⟩ -
      apply (closeBrace_reports_no_quote styled _).bind
      intro d _
      match text with
      | none => exact .ok _
      | some (text, location) =>
          exact (numberStyle_reports_no_quote o text location d).bind fun _ _ => .ok _
  | dateTime kind =>
      apply reports_bind_iff
      rintro ⟨text, styled⟩ -
      apply (closeBrace_reports_no_quote styled _).bind
      intro d _
      match text with
      | none => exact .ok _
      | some (text, location) =>
          exact (dateTimeStyle_reports_no_quote o text location _ d).bind fun _ _ => .ok _
  | selector plural => cases hstyled

/-- No skeleton is refused for a quoted text that does not end. -/
theorem Failure.Arises.no_unclosedQuote {o : ParseOptions} {f : Failure} (h : f.Arises o) :
    f.kind ≠ .invalidDateTimeSkeleton ∧
      ∀ pattern, f.cause ≠ some (.skeleton (.unclosedQuote pattern)) := by
  cases h with
  | form hform =>
      refine ⟨?_, fun _ => by simp⟩
      rintro rfl
      cases hform
  | tokens hrefused =>
      rcases NumberSkeleton.tokenize_eq_error hrefused with rfl | ⟨token, rfl⟩ <;> simp
  | number hasked hrefused =>
      obtain ⟨t, -, hstem⟩ := NumberSkeleton.interpret_eq_error hrefused
      refine ⟨by simp, ?_⟩
      rintro pattern hcause
      cases hcause
      cases hstem
  | dateTime hasked hclosed hrefused =>
      obtain ⟨letter, group, rfl⟩ := DateTimeSkeleton.interpret_eq_error hclosed hrefused
      simp [dateTimeErrorKind]

/-- Quoted text that does not end is found by the reader of styles and by no one
else.  No message is refused for a date-time skeleton that leaves quoted text open,
and none has such a cause; and wherever an argument has a style, the argument is
refused for an open quote exactly if the message ends inside quoted text of the
style. -/
theorem quotes_found_by_styles :
    (∀ (message : String) (o : ParseOptions) (e : ParseError), parse message o = .error e →
      e.kind ≠ .invalidDateTimeSkeleton ∧
        ∀ pattern, e.cause ≠ some (.skeleton (.unclosedQuote pattern))) ∧
    ∀ (inner : NestedReader) (o : ParseOptions) (s : Scope) (c typed comma : Cursor)
      (name : String) (type : ArgumentType), TypeRead c name type typed →
      type.isStyled = true → typed.skipSpace.skip? [','] = some comma →
      (Reports .unclosedQuoteInArgumentStyle (readArgument inner o s c) ↔
        LeavesQuoteOpen comma.skipSpace.rest) := by
  refine ⟨?_, fun inner o s c typed comma name type => reports_readArgument_iff⟩
  intro message o e h
  obtain ⟨f, hf, rfl⟩ := exists_failure_of_parse h
  exact hf.no_unclosedQuote

/-- A pair of apostrophes is no end of a quoted text, and the message ends inside
the second style: the reader of patterns sees the first one, finds no fault with its
quotes, and never sees the second. -/
theorem quotes_found_by_styles_date :
    (∃ e, parse "\x7bd, date, ::Y 'a''b'\x7d" { shouldParseSkeletons := true } = .error e ∧
      e.kind ≠ .invalidDateTimeSkeleton ∧
        ∀ pattern, e.cause ≠ some (.skeleton (.unclosedQuote pattern))) ∧
    Reports .unclosedQuoteInArgumentStyle
      (readArgument (readMessage {} 0) { shouldParseSkeletons := true } .top
        (.start "\x7bd, date, ::y 'a''b\x7d".toList)) := by
  constructor
  · have hread : parse "\x7bd, date, ::Y 'a''b'\x7d" { shouldParseSkeletons := true } =
        .error ⟨.other, "\x7bd, date, ::Y 'a''b'\x7d", .inLine 10 20,
          some (.skeleton (.unsupportedField 'Y' .year))⟩ := rfl
    exact ⟨_, hread, quotes_found_by_styles.1 _ _ _ hread⟩
  · have hhead : TypeRead (.start "\x7bd, date, ::y 'a''b\x7d".toList) "d" (.dateTime .date)
        (Cursor.advance 8 (.start "\x7bd, date, ::y 'a''b\x7d".toList)) :=
      ⟨Cursor.advance 2 (.start "\x7bd, date, ::y 'a''b\x7d".toList),
        ⟨⟨_, rfl⟩, by decide, rfl, rfl⟩, ⟨_, rfl⟩, rfl, rfl⟩
    have hopen : LeavesQuoteOpen "::y 'a''b\x7d".toList :=
      ⟨(scanStyle_eq_error_iff.mp (⟨8, rfl⟩ : ∃ start, scanStyle 0 none 0 _ = .error start)).1,
        by decide⟩
    exact (quotes_found_by_styles.2 _ _ .top _ _ _ "d" _ hhead rfl rfl).mpr hopen

end MessagePattern
