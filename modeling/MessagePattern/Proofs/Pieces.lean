/-
# Literals written side by side

Each literal is written on its own: its apostrophes doubled, its syntax in one
quoted run.  When literals stand side by side, what was written of one meets what
was written of the next, and two things may happen that neither of them is
protected from.  The apostrophe that ends one quoted run meets the one that
begins another, and the two are read as a doubled apostrophe; and an angle bracket
meets a letter or a slash, and is read as a tag.

A `Piece` is as much of a literal as is written and read as one.  `fits` says of
pieces in a row that neither happens, and `Tells` that they say what they are
meant to say when they are read.  The two are the same.
-/

import MessagePattern.Proofs.LiteralRuns

namespace MessagePattern

/-- What is written of a literal and read as one. -/
inductive Piece
  /-- A scalar outside quoted runs.  An apostrophe is doubled. -/
  | char (c : Char)
  /-- A quoted run. -/
  | quote (run : List Char)
  deriving DecidableEq

namespace Piece

/-- How a piece is written. -/
def render : Piece → List Char
  | .char c => doubleApostrophes [c]
  | .quote run => '\'' :: (doubleApostrophes run ++ ['\''])

/-- What a piece says. -/
def said : Piece → List Char
  | .char c => [c]
  | .quote run => run

/-- Syntax stands in quoted runs, and they begin with some. -/
def Proper (s : Scope) : Piece → Prop
  | .char c => c ≠ '{' ∧ c ≠ '}' ∧ (c = '#' → s.plural = false)
  | .quote run => run.head?.any s.opensQuote = true

end Piece

/-- How pieces are written one after the other. -/
def renderPieces (ps : List Piece) : List Char := ps.flatMap Piece.render

/-- What pieces say between them. -/
def saidPieces (ps : List Piece) : List Char := ps.flatMap Piece.said

/-! ## What may not meet -/

/-- The scalars in front of the first apostrophe that is written. -/
def bareText : List Piece → List Char
  | .char c :: ps => if c = '\'' then [] else c :: bareText ps
  | _ => []

/-- Whether a quoted run comes next, apostrophes aside. -/
def quotesNext : List Piece → Bool
  | .char c :: ps => c == '\'' && quotesNext ps
  | .quote _ :: _ => true
  | [] => false

/-- Whether what follows an angle bracket makes a self-closing tag of it that is
read as it is written. -/
def closesTag (text : List Char) : Bool :=
  text.head?.any isTagLetter && ['/', '>'].isPrefixOf ((text.drop 1).dropWhile isTagNameChar)

/-- Whether the pieces can stand side by side: no quoted run is followed by
another with nothing but apostrophes in between and, where tags are read, no
angle bracket by what makes it a tag, unless that is a self-closing one. -/
def fits (tags : Bool) : List Piece → Bool
  | [] => true
  | .char c :: ps =>
    (!(tags && c == '<' && (bareText ps).head?.any isTagStart) || closesTag (bareText ps))
      && fits tags ps
  | .quote _ :: ps => !quotesNext ps && fits tags ps

/-- Scalars other than angle brackets fit in front of anything. -/
theorem fits_append_chars (tags : Bool) {text : List Char} (h : '<' ∉ text) (ps : List Piece) :
    fits tags (text.map .char ++ ps) = fits tags ps := by
  induction text with
  | nil => rfl
  | cons c text ih =>
      rw [List.mem_cons, not_or] at h
      have hc : (c == '<') = false := by simpa using Ne.symm h.1
      simp [fits, hc, ih h.2]

/-! ## Pieces and texts -/

@[simp] theorem renderPieces_cons (p : Piece) (ps : List Piece) :
    renderPieces (p :: ps) = p.render ++ renderPieces ps :=
  List.flatMap_cons

@[simp] theorem saidPieces_cons (p : Piece) (ps : List Piece) :
    saidPieces (p :: ps) = p.said ++ saidPieces ps :=
  List.flatMap_cons

theorem renderPieces_append (first second : List Piece) :
    renderPieces (first ++ second) = renderPieces first ++ renderPieces second :=
  List.flatMap_append

theorem saidPieces_append (first second : List Piece) :
    saidPieces (first ++ second) = saidPieces first ++ saidPieces second :=
  List.flatMap_append

theorem Piece.render_apostrophe : (Piece.char '\'').render = ['\'', '\''] := rfl

theorem Piece.render_of_ne {c : Char} (hc : c ≠ '\'') : (Piece.char c).render = [c] := if_neg hc

theorem saidPieces_chars (text : List Char) : saidPieces (text.map .char) = text := by
  induction text with
  | nil => rfl
  | cons c text ih => rw [List.map_cons, saidPieces_cons, ih]; rfl

theorem renderPieces_chars (text : List Char) :
    renderPieces (text.map .char) = doubleApostrophes text := by
  induction text with
  | nil => rfl
  | cons c text ih =>
      rw [List.map_cons, renderPieces_cons, ih, doubleApostrophes]
      split
      · next hc => rw [hc, Piece.render_apostrophe]; rfl
      · next hc => rw [Piece.render_of_ne hc]; rfl

theorem doubleApostrophes_of_not_mem {text : List Char} (h : '\'' ∉ text) :
    doubleApostrophes text = text := by
  induction text with
  | nil => rfl
  | cons c text ih =>
      rw [List.mem_cons, not_or] at h
      rw [doubleApostrophes, if_neg (Ne.symm h.1), ih h.2]

theorem not_mem_bareText (ps : List Piece) : '\'' ∉ bareText ps := by
  induction ps with
  | nil => exact List.not_mem_nil
  | cons p ps ih =>
      cases p with
      | char c =>
          rw [bareText]
          split
          · exact List.not_mem_nil
          · next hc => exact List.not_mem_cons_of_ne_of_not_mem (Ne.symm hc) ih
      | quote run => exact List.not_mem_nil

/-! ## Self-closing tags among pieces -/

/-- What a tag cannot go on with. -/
def PartsTag (text : List Char) : Prop := ∀ c ∈ text.head?, c ∈ ['\'', '{', '}', '#', '<']

theorem PartsTag.any_eq_false {text : List Char} (h : PartsTag text) {p : Char → Bool}
    (hp : ['\'', '{', '}', '#', '<'].any p = false) : text.head?.any p = false := by
  cases text with
  | nil => rfl
  | cons c text =>
      have hc := h c rfl
      rw [List.any_eq_false] at hp
      simpa using hp c hc

theorem PartsTag.ne_cons {text : List Char} (h : PartsTag text) {c : Char}
    (hc : c ∉ ['\'', '{', '}', '#', '<']) {rest : List Char} : text ≠ c :: rest := by
  rintro rfl
  exact hc (h c rfl)

theorem EndsLiteral.partsTag {o : ParseOptions} {s : Scope} {tail : List Char}
    (h : EndsLiteral o s tail) : PartsTag tail := by
  cases tail with
  | nil => exact fun c hc => nomatch hc
  | cons c text =>
      rintro _ ⟨⟩
      simp only [EndsLiteral, Scope.endsLiteral] at h
      split at h
      · decide
      · decide
      · decide
      · decide
      · cases h

theorem bareText_append_chars {text : List Char} (h : '\'' ∉ text) (ps : List Piece) :
    bareText (text.map .char ++ ps) = text ++ bareText ps := by
  induction text with
  | nil => rfl
  | cons c text ih =>
      rw [List.mem_cons, not_or] at h
      rw [List.map_cons, List.cons_append, bareText, if_neg (Ne.symm h.1), ih h.2]
      rfl

/-- In front of the first apostrophe everything is written as it is. -/
theorem exists_bareText (ps : List Piece) :
    ∃ rest, ps = (bareText ps).map .char ++ rest ∧ ∀ {tail : List Char}, PartsTag tail →
      PartsTag (renderPieces rest ++ tail) := by
  have happart (text : List Char) : PartsTag ('\'' :: text) := by
    rintro _ ⟨⟩
    exact List.mem_cons_self
  induction ps with
  | nil => exact ⟨[], rfl, id⟩
  | cons p ps ih =>
      obtain ⟨rest, hps, hrest⟩ := ih
      cases p with
      | char c =>
          by_cases hc : c = '\''
          · subst hc
            exact ⟨.char '\'' :: ps, rfl, fun _ => happart _⟩
          · refine ⟨rest, ?_, hrest⟩
            rw [bareText, if_neg hc, List.map_cons, List.cons_append, ← hps]
      | quote run => exact ⟨.quote run :: ps, rfl, fun _ => happart _⟩

theorem renderPieces_of_bareText {ps rest : List Piece} (h : ps = (bareText ps).map .char ++ rest) :
    renderPieces ps = bareText ps ++ renderPieces rest := by
  have hrender := congrArg renderPieces h
  rwa [renderPieces_append, renderPieces_chars, doubleApostrophes_of_not_mem (not_mem_bareText ps)]
    at hrender

theorem saidPieces_of_bareText {ps rest : List Piece} (h : ps = (bareText ps).map .char ++ rest) :
    saidPieces ps = bareText ps ++ saidPieces rest := by
  have hsaid := congrArg saidPieces h
  rwa [saidPieces_append, saidPieces_chars] at hsaid

/-- A tag is closed in front of what cannot be part of it. -/
theorem exists_closedTag?_of_append {text tail name rest : List Char} (hparts : PartsTag tail)
    (h : closedTag? (text ++ tail) = some (name, rest)) :
    ∃ after, closedTag? text = some (name, after) := by
  obtain ⟨letter, more, heq, hletter, hname, hrest⟩ := closedTag?_eq_some.mp h
  rcases List.append_eq_cons_iff.mp heq with ⟨-, htail⟩ | ⟨text, rfl, rfl⟩
  · have hnone := hparts.any_eq_false (p := isTagLetter) (by decide)
    simp [htail, hletter] at hnone
  have hafterName : tail.head?.any isTagNameChar = false := hparts.any_eq_false (by decide)
  have hafterSpace : tail.head?.any isPatternSpace = false := hparts.any_eq_false (by decide)
  rw [Cursor.takeWhile_append_of_head text hafterName] at hname
  rw [Cursor.dropWhile_append_of_head text hafterName,
    Cursor.dropWhile_append_of_head _ hafterSpace] at hrest
  rcases List.append_eq_cons_iff.mp hrest with ⟨-, htail⟩ | ⟨behind, hslash, hrest⟩
  · exact absurd htail (hparts.ne_cons (by decide))
  rcases List.append_eq_cons_iff.mp hrest.symm with ⟨-, htail⟩ | ⟨after, rfl, -⟩
  · exact absurd htail (hparts.ne_cons (by decide))
  exact ⟨after, closedTag?_eq_some.mpr ⟨letter, text, rfl, hletter, hname, hslash⟩⟩

/-- What makes a self-closing tag of an angle bracket in front of it. -/
theorem closesTag_iff {text : List Char} :
    closesTag text = true ↔
      ∃ name rest, text = name ++ '/' :: '>' :: rest ∧ isTagName name = true := by
  cases text with
  | nil => simp [closesTag, isTagName]
  | cons letter text =>
      simp only [closesTag, List.head?_cons, Option.any_some, List.drop_succ_cons, List.drop_zero,
        Bool.and_eq_true, List.isPrefixOf_iff_prefix]
      constructor
      · rintro ⟨hletter, rest, hrest⟩
        refine ⟨letter :: text.takeWhile isTagNameChar, rest, ?_, ?_⟩
        · rw [List.cons_append, show '/' :: '>' :: rest = ['/', '>'] ++ rest from rfl, hrest,
            List.takeWhile_append_dropWhile]
        · have hall : (text.takeWhile isTagNameChar).all isTagNameChar := List.all_takeWhile
          simp only [isTagName, hletter, Bool.true_and]
          exact hall
      · rintro ⟨name, rest, htext, hname⟩
        cases name with
        | nil => cases hname
        | cons first name =>
            rw [List.cons_append] at htext
            obtain ⟨rfl, rfl⟩ := List.cons.inj htext
            simp only [isTagName, Bool.and_eq_true] at hname
            refine ⟨hname.1, rest, ?_⟩
            rw [Cursor.dropWhile_append_of_stop hname.2 rfl]
            rfl

/-- The pieces of a self-closing tag are the scalars that are written of it. -/
theorem exists_of_closesTag {ps : List Piece} (h : closesTag (bareText ps) = true) :
    ∃ name others, isTagName name = true ∧
      ps = (name ++ ['/', '>']).map .char ++ others := by
  obtain ⟨name, after, hbare, hname⟩ := closesTag_iff.mp h
  obtain ⟨rest, hps, -⟩ := exists_bareText ps
  refine ⟨name, after.map .char ++ rest, hname, ?_⟩
  rw [hps, hbare]
  simp

/-! ## Reading pieces -/

/-- What is written of the pieces says what they say, up to `tail`, if they fit,
and only then. -/
structure Tells (o : ParseOptions) (s : Scope) (tail : List Char) (ps : List Piece) : Prop where
  complete : fits (!o.ignoreTag) ps = true →
    literals o s false (renderPieces ps ++ tail) = (saidPieces ps, tail)
  faithful : (literals o s false (renderPieces ps ++ tail)).1 = saidPieces ps →
    fits (!o.ignoreTag) ps = true

section Reading

variable {o : ParseOptions} {s : Scope} {tail : List Char} {ps : List Piece}

/-- Pieces that are read as they are, in front of others. -/
theorem Tells.append (first : List Piece) (h : Tells o s tail ps)
    (hfits : fits (!o.ignoreTag) (first ++ ps) = fits (!o.ignoreTag) ps)
    (hread : literals o s false (renderPieces (first ++ ps) ++ tail) =
      (saidPieces first ++ (literals o s false (renderPieces ps ++ tail)).1,
        (literals o s false (renderPieces ps ++ tail)).2)) :
    Tells o s tail (first ++ ps) where
  complete hfine := by
    rw [hread, h.complete (hfits ▸ hfine), saidPieces_append]
  faithful hsaid := by
    rw [hread, saidPieces_append] at hsaid
    rw [hfits]
    exact h.faithful (List.append_cancel_left hsaid)

/-- Pieces that do not fit and say something else. -/
theorem Tells.of_not (hfits : fits (!o.ignoreTag) ps = false)
    (hsaid : (literals o s false (renderPieces ps ++ tail)).1 ≠ saidPieces ps) :
    Tells o s tail ps :=
  ⟨fun hfine => absurd hfine (by simp [hfits]), fun heq => absurd heq hsaid⟩

theorem literals_pair (quoted : Bool) (text : List Char) :
    literals o s quoted ('\'' :: '\'' :: text) =
      ('\'' :: (literals o s quoted text).1, (literals o s quoted text).2) := by
  apply literals_step ['\'', '\''] ['\'']
  rw [List.cons_append, List.cons_append, List.nil_append, literalText_pair, Nat.add_comm]
  rfl

/-- The apostrophe that ends a quoted run may be followed by doubled ones, but not
by another run. -/
theorem literals_close (hends : EndsLiteral o s tail) (h : quotesNext ps = false) :
    literals o s true ('\'' :: (renderPieces ps ++ tail)) =
      literals o s false (renderPieces ps ++ tail) := by
  have hclose {text : List Char} (hhead : text.head? ≠ some '\'') :
      literals o s true ('\'' :: text) = literals o s false text := by
    apply literals_step ['\''] []
    rw [List.cons_append, List.nil_append, literalText_close o s hhead, Nat.add_comm]
    rfl
  induction ps with
  | nil => exact hclose hends.head.1
  | cons p ps ih =>
      cases p with
      | quote run => cases h
      | char c =>
          by_cases hc : c = '\''
          · subst hc
            have hnext : quotesNext ps = false := by simpa [quotesNext] using h
            rw [renderPieces_cons, Piece.render_apostrophe]
            simp only [List.cons_append, List.nil_append, literals_pair, ih hnext]
          · apply hclose
            rw [renderPieces_cons, Piece.render_of_ne hc]
            simpa using hc

/-- The two apostrophes between one quoted run and the next are read as a doubled
one, so that an apostrophe is said where the second run should begin. -/
theorem literals_requote (h : quotesNext ps = true) (hproper : ∀ p ∈ ps, p.Proper s) :
    (literals o s true ('\'' :: (renderPieces ps ++ tail))).1 ≠ saidPieces ps := by
  induction ps with
  | nil => cases h
  | cons p ps ih =>
      cases p with
      | quote run =>
          have hopens : run.head?.any s.opensQuote = true := hproper _ List.mem_cons_self
          cases run with
          | nil => cases hopens
          | cons c run =>
              have hc : c ≠ '\'' := by
                rintro rfl
                simp [Scope.opensQuote] at hopens
              rw [renderPieces_cons, Piece.render, List.cons_append, List.cons_append,
                literals_pair, saidPieces_cons]
              exact fun heq => hc (List.cons.inj heq).1.symm
      | char c =>
          simp only [quotesNext, Bool.and_eq_true, beq_iff_eq] at h
          obtain ⟨rfl, hnext⟩ := h
          rw [renderPieces_cons, Piece.render_apostrophe, saidPieces_cons]
          simp only [List.cons_append, List.nil_append, literals_pair]
          intro heq
          exact ih hnext (fun p hp => hproper p (List.mem_cons_of_mem _ hp)) (List.cons.inj heq).2

/-- A quoted run says what is in it, and then its last apostrophe is met. -/
theorem literals_quote {run : List Char} (hopens : run.head?.any s.opensQuote = true)
    (text : List Char) :
    literals o s false ((Piece.quote run).render ++ text) =
      (run ++ (literals o s true ('\'' :: text)).1, (literals o s true ('\'' :: text)).2) := by
  have hhead : (doubleApostrophes run ++ '\'' :: text).head?.any s.opensQuote = true := by
    cases run with
    | nil => cases hopens
    | cons c run => simpa [List.head?_append, head?_doubleApostrophes] using hopens
  have hrender : (Piece.quote run).render ++ text =
      ('\'' :: doubleApostrophes run) ++ '\'' :: text := by
    simp [Piece.render]
  rw [hrender]
  apply literals_step
  rw [List.cons_append, literalText_open o s hhead, literalText_double_quoted, List.length_cons,
    Nat.add_right_comm]

/-- Where pieces begin, only scalars outside quoted runs can make an angle bracket
a tag. -/
theorem head?_renderPieces (hends : EndsLiteral o s tail) :
    (renderPieces ps ++ tail).head?.any isTagStart = (bareText ps).head?.any isTagStart := by
  cases ps with
  | nil => exact hends.head.2
  | cons p ps =>
      cases p with
      | quote run => rfl
      | char c =>
          by_cases hc : c = '\''
          · subst hc
            rfl
          · rw [renderPieces_cons, Piece.render_of_ne hc, bareText, if_neg hc]
            rfl

/-- Of what stands outside quoted runs only an angle bracket can end a literal. -/
theorem eq_of_endsLiteral {c : Char} {text : List Char} (hproper : (Piece.char c).Proper s)
    (h : Scope.endsLiteral o s c text = true) :
    c = '<' ∧ o.ignoreTag = false ∧ text.head?.any isTagStart = true := by
  unfold Scope.endsLiteral at h
  split at h
  · exact absurd rfl hproper.1
  · exact absurd rfl hproper.2.1
  · rw [hproper.2.2 rfl] at h
    cases h
  · simpa using h
  · cases h

theorem literals_selfClosing (htags : o.ignoreTag = false) {name : List Char}
    (hname : isTagName name = true) (text : List Char) :
    literals o s false ('<' :: (name ++ '/' :: '>' :: text)) =
      ('<' :: (name ++ '/' :: '>' :: (literals o s false text).1),
        (literals o s false text).2) := by
  have hself : selfClosing? o ('<' :: (name ++ '/' :: '>' :: text)) = some (name, text) := by
    cases name with
    | nil => cases hname
    | cons letter name =>
        simp only [isTagName, Bool.and_eq_true] at hname
        rw [selfClosing?, htags, if_neg Bool.false_ne_true, closedTag?_eq_some]
        refine ⟨letter, name ++ '/' :: '>' :: text, rfl, hname.1, ?_, ?_⟩
        · rw [Cursor.takeWhile_append_of_stop hname.2 rfl]
        · rw [Cursor.dropWhile_append_of_stop hname.2 rfl]
          rfl
  rw [literals_of_endsLiteral (endsLiteral_tag s htags hname _), hself]

/-- White space in a self-closing tag is not said, so the tag says what is written
only if there is none. -/
theorem closesTag_of_literals (hends : EndsLiteral o s tail) (htags : o.ignoreTag = false)
    (hstart : (bareText ps).head?.any isTagStart = true)
    (h : (literals o s false ('<' :: (renderPieces ps ++ tail))).1 = '<' :: saidPieces ps) :
    closesTag (bareText ps) = true := by
  have hover : EndsLiteral o s ('<' :: (renderPieces ps ++ tail)) := by
    simp only [EndsLiteral, Scope.endsLiteral, htags, head?_renderPieces hends, hstart]
    rfl
  rw [literals_of_endsLiteral hover, selfClosing?, htags, if_neg Bool.false_ne_true] at h
  cases hclosed : closedTag? (renderPieces ps ++ tail) with
  | none =>
      rw [hclosed] at h
      cases h
  | some tag =>
      obtain ⟨name, behind⟩ := tag
      obtain ⟨rest, hps, hparts⟩ := exists_bareText ps
      rw [hclosed, saidPieces_of_bareText hps] at h
      rw [renderPieces_of_bareText hps, List.append_assoc] at hclosed
      obtain ⟨after, htag⟩ := exists_closedTag?_of_append (hparts hends.partsTag) hclosed
      obtain ⟨letter, more, htext, hletter, hname, hafter⟩ := closedTag?_eq_some.mp htag
      have hmore : '/' :: '>' :: (literals o s false behind).1 =
          more.dropWhile isTagNameChar ++ saidPieces rest := by
        rw [htext] at h
        simp only [hname, List.cons_append, List.cons.injEq, true_and] at h
        refine List.append_cancel_left (h.trans ?_)
        rw [← List.append_assoc, List.takeWhile_append_dropWhile]
      cases hspace : more.dropWhile isTagNameChar with
      | nil =>
          rw [hspace] at hafter
          cases hafter
      | cons first others =>
          rw [hspace] at hafter hmore
          obtain ⟨rfl, -⟩ := List.cons.inj hmore
          rw [List.dropWhile_cons_of_neg (by decide)] at hafter
          rw [htext]
          simp [closesTag, hletter, hspace, hafter]

theorem Tells.apostrophe (h : Tells o s tail ps) : Tells o s tail (.char '\'' :: ps) := by
  apply h.append [.char '\'']
  · simp [fits]
  · exact literals_pair false (renderPieces ps ++ tail)

/-- A quoted run says what it should unless another one follows. -/
theorem Tells.quote (h : Tells o s tail ps) (hends : EndsLiteral o s tail) {run : List Char}
    (hproper : ∀ p ∈ .quote run :: ps, p.Proper s) : Tells o s tail (.quote run :: ps) := by
  have hopens : run.head?.any s.opensQuote = true := hproper _ List.mem_cons_self
  have hread := literals_quote (o := o) hopens (renderPieces ps ++ tail)
  rw [← List.append_assoc, ← renderPieces_cons] at hread
  cases hnext : quotesNext ps with
  | false =>
      rw [literals_close hends hnext] at hread
      apply h.append [.quote run]
      · simp [fits, hnext]
      · simpa [saidPieces, Piece.said] using hread
  | true =>
      apply Tells.of_not
      · simp [fits, hnext]
      · rw [hread, saidPieces_cons]
        intro heq
        exact literals_requote hnext (fun p hp => hproper p (List.mem_cons_of_mem _ hp))
          (List.append_cancel_left heq)

/-- A scalar that no literal ends in front of says itself. -/
theorem Tells.plain (h : Tells o s tail ps) (hends : EndsLiteral o s tail) {c : Char}
    (hc : c ≠ '\'') (hstop : Scope.endsLiteral o s c (renderPieces ps ++ tail) = false) :
    Tells o s tail (.char c :: ps) := by
  apply h.append [.char c]
  · have hbare : (!o.ignoreTag && c == '<' && (bareText ps).head?.any isTagStart) = false := by
      rw [← head?_renderPieces hends, Bool.eq_false_iff]
      intro htag
      simp only [Bool.and_eq_true, beq_iff_eq] at htag
      obtain ⟨⟨htags, rfl⟩, hstart⟩ := htag
      simp only [Scope.endsLiteral, htags, hstart] at hstop
      cases hstop
    simp only [List.cons_append, List.nil_append, fits, hbare]
    rfl
  · rw [List.cons_append, List.nil_append, renderPieces_cons, Piece.render_of_ne hc,
      List.append_assoc]
    apply literals_step [c] [c]
    rw [List.cons_append, List.nil_append, literalText_plain o s (fun h => hc h.1)
      (fun h => hc h.1) hstop, Nat.add_comm]
    rfl

/-- An angle bracket that makes a tag which does not close itself, or which has
white space in it, says something else. -/
theorem tells_of_not_closesTag (hends : EndsLiteral o s tail) (htags : o.ignoreTag = false)
    (hstart : (bareText ps).head?.any isTagStart = true)
    (hopen : closesTag (bareText ps) = false) : Tells o s tail (.char '<' :: ps) := by
  apply Tells.of_not
  · simp [fits, htags, hstart, hopen]
  · intro heq
    rw [closesTag_of_literals hends htags hstart heq] at hopen
    cases hopen

/-- A self-closing tag without white space says itself. -/
theorem Tells.selfClosing (h : Tells o s tail ps) (htags : o.ignoreTag = false) {name : List Char}
    (hname : isTagName name = true) :
    Tells o s tail (('<' :: (name ++ ['/', '>'])).map .char ++ ps) := by
  have hbracket : '<' ∉ name ++ ['/', '>'] := not_mem_of_isTagName hname (by decide)
  have hquote : '\'' ∉ '<' :: (name ++ ['/', '>']) :=
    not_mem_selfClosing hname (by decide) (by decide)
  apply h.append
  · have hcloses : closesTag (bareText ((name ++ ['/', '>']).map .char ++ ps)) = true := by
      rw [bareText_append_chars (List.not_mem_of_not_mem_cons hquote), closesTag_iff]
      exact ⟨name, bareText ps, by simp, hname⟩
    rw [List.map_cons, List.cons_append, fits, hcloses, Bool.or_true, Bool.true_and,
      fits_append_chars _ hbracket]
  · rw [renderPieces_append, renderPieces_chars, saidPieces_chars,
      doubleApostrophes_of_not_mem hquote]
    simpa using literals_selfClosing htags hname (renderPieces ps ++ tail)

/-- Pieces in a row say what they are meant to say if they fit, and only then. -/
theorem tells_of_proper (hover : literals o s false tail = ([], tail))
    (hproper : ∀ p ∈ ps, p.Proper s) : Tells o s tail ps := by
  have hends : EndsLiteral o s tail := endsLiteral_of_literals hover
  -- A self-closing tag takes several pieces at once.
  generalize hn : ps.length = n
  induction n using Nat.strongRecOn generalizing ps with
  | ind n ih =>
  cases ps with
  | nil => exact ⟨fun _ => hover, fun _ => rfl⟩
  | cons p ps =>
  have hothers : ∀ p ∈ ps, p.Proper s := fun p hp => hproper p (List.mem_cons_of_mem _ hp)
  have hrest : Tells o s tail ps := ih ps.length (by simp [← hn]) hothers rfl
  cases p with
  | quote run => exact hrest.quote hends hproper
  | char c =>
      by_cases hc : c = '\''
      · subst hc
        exact hrest.apostrophe
      cases hstop : Scope.endsLiteral o s c (renderPieces ps ++ tail) with
      | false => exact hrest.plain hends hc hstop
      | true =>
          obtain ⟨rfl, htags, hstart⟩ := eq_of_endsLiteral (hproper _ List.mem_cons_self) hstop
          rw [head?_renderPieces hends] at hstart
          cases hcloses : closesTag (bareText ps) with
          | false => exact tells_of_not_closesTag hends htags hstart hcloses
          | true =>
              obtain ⟨name, others, hname, rfl⟩ := exists_of_closesTag hcloses
              have hlength : others.length < n := by
                rw [← hn]
                simp
                omega
              have htells := ih _ hlength (fun p hp => hothers p (List.mem_append_right _ hp)) rfl
              exact htells.selfClosing htags hname

end Reading

/-! ## The pieces of a literal -/

/-- What is written of a literal: its scalars, with the run from the first to the
last syntax character quoted, unless it is a self-closing tag. -/
def pieces (inPlural : Bool) (text : List Char) : List Piece :=
  if isSelfClosingTag text then text.map .char
  else
    let (plain, rest) := splitBeforeSyntax inPlural text
    match splitAfterSyntax inPlural rest with
    | ([], _) => text.map .char
    | (run, rest) => plain.map .char ++ .quote run :: rest.map .char

theorem renderPieces_pieces (inPlural : Bool) (text : List Char) :
    renderPieces (pieces inPlural text) = renderLiteral inPlural text := by
  unfold pieces renderLiteral
  split
  · next hself =>
      obtain ⟨name, rfl, hname⟩ := isSelfClosingTag_iff.mp hself
      rw [renderPieces_chars,
        doubleApostrophes_of_not_mem (not_mem_selfClosing hname (by decide) (by decide))]
  · simp only [quoteSyntax, splitBeforeSyntax_double, splitAfterSyntax_double]
    cases splitAfterSyntax inPlural (splitBeforeSyntax inPlural text).2 with
    | mk run after =>
        cases run with
        | nil => exact renderPieces_chars text
        | cons c run =>
            have hne : doubleApostrophes (c :: run) ≠ [] := by simp [doubleApostrophes_eq_nil]
            obtain ⟨first, others, hdouble⟩ := List.exists_cons_of_ne_nil hne
            simp only [renderPieces_append, renderPieces_cons, renderPieces_chars, Piece.render,
              hdouble]
            simp

theorem saidPieces_pieces (inPlural : Bool) (text : List Char) :
    saidPieces (pieces inPlural text) = text := by
  unfold pieces
  split
  · exact saidPieces_chars text
  · cases hbefore : splitBeforeSyntax inPlural text with
    | mk before rest =>
    cases hafter : splitAfterSyntax inPlural rest with
    | mk run after =>
    cases run with
    | nil => simpa only [hafter] using saidPieces_chars text
    | cons c run =>
        obtain ⟨rfl, -⟩ := splitBeforeSyntax_spec hbefore
        obtain ⟨rfl, -⟩ := splitAfterSyntax_spec hafter
        simp only [hafter, saidPieces_append, saidPieces_cons, saidPieces_chars, Piece.said]

/-- What is plain may stand outside quoted runs. -/
theorem proper_of_isPlain {s : Scope} {text : List Char} (h : IsPlain s.plural text) {p : Piece}
    (hp : p ∈ text.map Piece.char) : p.Proper s := by
  induction text with
  | nil => cases hp
  | cons c text ih =>
      obtain ⟨hopens, hplain⟩ := h
      rcases List.mem_cons.mp hp with rfl | hp
      · simp only [opensSyntax, Bool.or_eq_false_iff, beq_eq_false_iff_ne,
          Bool.and_eq_false_imp, beq_iff_eq] at hopens
        exact ⟨hopens.1.1.1, hopens.1.1.2, hopens.1.2⟩
      · exact ih hplain hp

theorem proper_of_mem_pieces {s : Scope} {text : List Char} {p : Piece}
    (h : p ∈ pieces s.plural text) : p.Proper s := by
  unfold pieces at h
  split at h
  · next hself =>
      obtain ⟨name, rfl, hname⟩ := isSelfClosingTag_iff.mp hself
      obtain ⟨c, hc, rfl⟩ := List.mem_map.mp h
      have houtside {other : Char} (hother : other ∈ ['\'', '<', '{', '}', '#'])
          (hbracket : other ≠ '<') : c ≠ other := by
        rintro rfl
        exact not_mem_selfClosing hname hother hbracket hc
      exact ⟨houtside (by decide) (by decide), houtside (by decide) (by decide),
        fun hsign => absurd hsign (houtside (by decide) (by decide))⟩
  · cases hbefore : splitBeforeSyntax s.plural text with
    | mk before rest =>
    cases hafter : splitAfterSyntax s.plural rest with
    | mk run after =>
    obtain ⟨rfl, hplain, hrest⟩ := splitBeforeSyntax_spec hbefore
    obtain ⟨rfl, hplainAfter, hrun⟩ := splitAfterSyntax_spec hafter
    simp only [hbefore, hafter] at h
    cases run with
    | nil =>
        have hnil : [] ++ after = [] := hrest.resolve_right (Bool.eq_false_iff.mp (hrun rfl))
        rw [hnil, List.append_nil] at h
        exact proper_of_isPlain hplain h
    | cons c run =>
        rcases List.mem_append.mp h with hmem | hmem
        · exact proper_of_isPlain hplain hmem
        rcases List.mem_cons.mp hmem with rfl | hmem
        · have hopens := opensQuote_of_opensSyntax (hrest.resolve_left (by simp))
          exact hopens
        · exact proper_of_isPlain hplainAfter hmem

/-- Two quoted runs, and an angle bracket in front of a letter, do not fit; a bracket
in front of the rest of a self-closing tag does. -/
example : fits true (pieces false "\x7b".toList ++ pieces false "\x7d".toList) = false ∧
    fits true (pieces false "<".toList ++ pieces false "b".toList) = false ∧
    fits true (pieces false "<".toList ++ pieces false "b/>".toList) = true := by decide

end MessagePattern
