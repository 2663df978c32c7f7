/-
# Literals one after the other

Literals that follow each other, self-closing tags among them, say one text
between them.  `literals` is this text with what is left behind it: the reader of
literal text, started again behind every self-closing tag.

It is all that can be said of a run of literals without regard to where one ends
and the next begins.  Whatever elements are read from a text, the literals in
front of them say what `literals` gives, and the first element that is none
begins where `literals` ends.
-/

import MessagePattern.Proofs.Exactness

namespace MessagePattern

open Cursor

/-! ## Self-closing tags -/

/-- The name of the self-closing tag that a text begins with, behind its angle
bracket, and what follows the tag. -/
def closedTag? : List Char → Option (List Char × List Char)
  | [] => none
  | letter :: text =>
    if isTagLetter letter then
      match (text.dropWhile isTagNameChar).dropWhile isPatternSpace with
      | '/' :: '>' :: rest => some (letter :: text.takeWhile isTagNameChar, rest)
      | _ => none
    else none

/-- The same for a text that has to begin with the angle bracket, where tags are
read. -/
def selfClosing? (o : ParseOptions) : List Char → Option (List Char × List Char)
  | '<' :: text => if o.ignoreTag then none else closedTag? text
  | _ => none

theorem closedTag?_eq_some {text name rest : List Char} :
    closedTag? text = some (name, rest) ↔
      ∃ letter more, text = letter :: more ∧ isTagLetter letter = true ∧
        name = letter :: more.takeWhile isTagNameChar ∧
        (more.dropWhile isTagNameChar).dropWhile isPatternSpace = '/' :: '>' :: rest := by
  constructor
  · intro h
    unfold closedTag? at h
    split at h
    · cases h
    · next letter more =>
        split at h
        · next hletter =>
            split at h
            · next rest' hrest =>
                cases h
                exact ⟨letter, more, rfl, hletter, rfl, hrest⟩
            · cases h
        · cases h
  · rintro ⟨letter, more, rfl, hletter, rfl, hrest⟩
    simp only [closedTag?, hletter, if_true, hrest]

theorem selfClosing?_eq_some {o : ParseOptions} {text name rest : List Char}
    (h : selfClosing? o text = some (name, rest)) :
    o.ignoreTag = false ∧ ∃ more, text = '<' :: more ∧ closedTag? more = some (name, rest) := by
  unfold selfClosing? at h
  split at h
  · next more =>
      split at h
      · cases h
      · next htags => exact ⟨by simpa using htags, more, rfl, h⟩
  · cases h

theorem length_of_selfClosing? {o : ParseOptions} {text name rest : List Char}
    (h : selfClosing? o text = some (name, rest)) : rest.length < text.length := by
  obtain ⟨-, more, rfl, hmore⟩ := selfClosing?_eq_some h
  obtain ⟨letter, more, rfl, -, -, hrest⟩ := closedTag?_eq_some.mp hmore
  have hlength := congrArg List.length hrest
  have hspace := (List.dropWhile_suffix isPatternSpace
    (l := more.dropWhile isTagNameChar)).length_le
  have hname := (List.dropWhile_suffix isTagNameChar (l := more)).length_le
  simp only [List.length_cons] at hlength ⊢
  omega

/-! ## What a run of literals says -/

/-- Reads literals up to something else, starting inside or outside quoted text,
and gives what they say together with what is left. -/
def literals (o : ParseOptions) (s : Scope) (quoted : Bool) (text : List Char) :
    List Char × List Char :=
  match _h : selfClosing? o (text.drop (literalText o s quoted text).2) with
  | none => ((literalText o s quoted text).1, text.drop (literalText o s quoted text).2)
  | some (name, rest) =>
    ((literalText o s quoted text).1 ++ '<' :: (name ++ '/' :: '>' :: (literals o s false rest).1),
      (literals o s false rest).2)
termination_by text.length
decreasing_by
  all_goals
    have hlt := length_of_selfClosing? _h
    rw [List.length_drop] at hlt
    omega

section Steps

variable {o : ParseOptions} {s : Scope}

/-- Where literal text is over, a self-closing tag goes on with the run. -/
theorem literals_of_endsLiteral {text : List Char} (h : EndsLiteral o s text) :
    literals o s false text =
      match selfClosing? o text with
      | none => ([], text)
      | some (name, rest) =>
        ('<' :: (name ++ '/' :: '>' :: (literals o s false rest).1),
          (literals o s false rest).2) := by
  rw [literals, literalText_of_endsLiteral h, List.drop_zero]
  split
  · next hnone => rw [hnone]
  · next name rest hsome =>
      rw [hsome]
      rfl

/-- A run begins with literal text, which may be empty. -/
theorem literals_eq (quoted : Bool) (text : List Char) :
    literals o s quoted text =
      ((literalText o s quoted text).1 ++
          (literals o s false (text.drop (literalText o s quoted text).2)).1,
        (literals o s false (text.drop (literalText o s quoted text).2)).2) := by
  rw [literals_of_endsLiteral (endsLiteral_drop_literalText o s quoted text), literals]
  split
  · next hnone => simp only [hnone, List.append_nil]
  · next name rest hsome => simp only [hsome]

/-- A run that says nothing stands where literal text is over. -/
theorem endsLiteral_of_literals {text rest : List Char} (h : literals o s false text = ([], rest)) :
    EndsLiteral o s text := by
  by_contra hbegins
  rw [literals_eq, Prod.mk.injEq, List.append_eq_nil_iff] at h
  exact literalText_ne_nil hbegins h.1.1

/-- What the reader of literal text makes of the first scalars, the run does. -/
theorem literals_step {quoted quoted' : Bool} (first said : List Char) {text : List Char}
    (h : literalText o s quoted (first ++ text) =
      (said ++ (literalText o s quoted' text).1, first.length + (literalText o s quoted' text).2)) :
    literals o s quoted (first ++ text) =
      (said ++ (literals o s quoted' text).1, (literals o s quoted' text).2) := by
  rw [literals_eq quoted, h, literals_eq quoted']
  simp only [List.append_assoc, ← List.drop_drop, List.drop_left]

end Steps

/-! ## The elements of a run -/

/-- What the literals in front of all other elements say. -/
def leadingText : List Element → List Char
  | .literal text _ :: es => text.toList ++ leadingText es
  | _ => []

/-- What follows the literals in front. -/
def behindLiterals : List Element → List Element
  | .literal _ _ :: es => behindLiterals es
  | es => es

section Derivations

variable {R : NestedRelation} {o : ParseOptions} {s : Scope} {c d : Cursor}

/-- The name of a tag takes a letter and the name characters behind it. -/
theorem tagName_of_letter {letter : Char} {text : List Char} (h : c.rest = letter :: text) :
    c.tagName.1.toList = letter :: text.takeWhile isTagNameChar ∧
      c.tagName.2.rest = text.dropWhile isTagNameChar := by
  have hname : c.tagName.1.toList = letter :: text.takeWhile isTagNameChar := by
    simp [Cursor.tagName, h]
  refine ⟨hname, ?_⟩
  have hrest := (passes_tagName c).rest
  rw [hname, h, List.cons_append, List.cons.injEq] at hrest
  have hsplit := (List.takeWhile_append_dropWhile (p := isTagNameChar) (l := text)).trans hrest.2
  exact (List.append_cancel_left hsplit).symm

/-- What stands behind the name and the white space of a tag. -/
theorem rest_skipSpace_tagName {letter : Char} {text : List Char}
    (h : c.rest = '<' :: letter :: text) :
    c.bump.tagName.2.skipSpace.rest =
      (text.dropWhile isTagNameChar).dropWhile isPatternSpace := by
  rw [rest_skipSpace, (tagName_of_letter (rest_bump_cons h)).2]

/-- A self-closing tag is read as one. -/
theorem exists_selfClosing {name rest : List Char} (h : selfClosing? o c.rest = some (name, rest)) :
    ∃ d, ElementRead R o s c
        (.literal (String.ofList ('<' :: (name ++ ['/', '>']))) (d.since c.position)) d ∧
      d.rest = rest := by
  obtain ⟨htags, more, hmore, htag⟩ := selfClosing?_eq_some h
  obtain ⟨letter, text, rfl, hletter, hname, hrest⟩ := closedTag?_eq_some.mp htag
  have hspace := rest_skipSpace_tagName hmore
  rw [hrest] at hspace
  obtain ⟨d, hskip, hd⟩ := skip?_of_rest ['/', '>'] hspace
  refine ⟨d, ?_, hd⟩
  have hsame : String.ofList ('<' :: (name ++ ['/', '>'])) = "<" ++ c.bump.tagName.1 ++ "/>" := by
    apply String.toList_injective
    simp [hname, (tagName_of_letter (rest_bump_cons hmore)).1]
  rw [hsame]
  exact .selfClosing htags ⟨letter, text, hmore, hletter⟩ hskip

theorem selfClosing?_of_read (tags : o.ignoreTag = false)
    (begins : ∃ letter text, c.rest = '<' :: letter :: text ∧ isTagLetter letter = true)
    (closed : c.bump.tagName.2.skipSpace.skip? ['/', '>'] = some d) :
    selfClosing? o c.rest = some (c.bump.tagName.1.toList, d.rest) := by
  obtain ⟨letter, text, hrest, hletter⟩ := begins
  have hclosed := (Passes.of_skip? closed).rest
  rw [rest_skipSpace_tagName hrest] at hclosed
  rw [hrest, selfClosing?, tags, if_neg Bool.false_ne_true, closedTag?_eq_some]
  exact ⟨letter, text, rfl, hletter, (tagName_of_letter (rest_bump_cons hrest)).1, hclosed⟩

/-- A tag that is opened does not close itself. -/
theorem selfClosing?_of_opened {body : Cursor} {kind : ErrorKind} {location : Location}
    (begins : ∃ letter text, c.rest = '<' :: letter :: text ∧ isTagLetter letter = true)
    (opened : c.bump.tagName.2.skipSpace.expect ['>'] kind location = .ok body) :
    selfClosing? o c.rest = none := by
  obtain ⟨letter, text, hrest, -⟩ := begins
  have hopened := (Passes.of_expect opened).rest
  rw [rest_skipSpace_tagName hrest] at hopened
  cases hself : selfClosing? o c.rest with
  | none => rfl
  | some pair =>
      obtain ⟨-, more, hmore, htag⟩ := selfClosing?_eq_some hself
      obtain ⟨letter', text', rfl, -, -, hclosed⟩ := closedTag?_eq_some.mp htag
      rw [hrest, List.cons.injEq, List.cons.injEq] at hmore
      rw [← hmore.2.2, hopened] at hclosed
      cases hclosed

/-- Where text is over, no self-closing tag goes on with it. -/
theorem Closes.literals_eq_nil {tail : List Char} (h : Closes o s tail) :
    literals o s false tail = ([], tail) := by
  rw [literals_of_endsLiteral h.endsLiteral]
  cases h with
  | message => rfl
  | branch nested tail => rfl
  | tag inTag tags tail =>
      rw [selfClosing?, tags, if_neg Bool.false_ne_true]
      rfl

/-- Elements other than literals begin where no literal does. -/
theorem ElementRead.literals_eq_nil {e : Element} (h : ElementRead R o s c e d)
    (hother : ∀ text location, e ≠ .literal text location) :
    literals o s false c.rest = ([], c.rest) := by
  cases h with
  | literal begins => exact absurd rfl (hother _ _)
  | argument named closed =>
      obtain ⟨text, hbrace⟩ := named.brace
      rw [hbrace]
      exact literals_of_endsLiteral rfl
  | number head read closed made | dateTime head read closed made
  | selector head separated counted read nonempty other closed =>
      obtain ⟨text, hbrace⟩ := head.brace
      rw [hbrace]
      exact literals_of_endsLiteral rfl
  | pound plural sign =>
      obtain ⟨text, hsign⟩ := sign
      rw [hsign]
      exact literals_of_endsLiteral plural
  | selfClosing tags begins closed => exact absurd rfl (hother _ _)
  | tag tags begins opened inner closed =>
      have hnone : selfClosing? o c.rest = none := selfClosing?_of_opened begins opened
      obtain ⟨letter, text, hrest, hletter⟩ := begins
      have hends : EndsLiteral o s c.rest := by
        rw [hrest]
        simp [EndsLiteral, Scope.endsLiteral, tags, isTagStart, hletter]
      rw [literals_of_endsLiteral hends, hnone]

/-- A literal says what the run says first. -/
theorem ElementRead.literals_cons {text : String} {location : Location}
    (h : ElementRead R o s c (.literal text location) d) :
    literals o s false c.rest =
      (text.toList ++ (literals o s false d.rest).1, (literals o s false d.rest).2) := by
  generalize he : Element.literal text location = e at h
  cases h with
  | literal begins =>
      cases he
      rw [literals_eq, ← rest_advance]
      simp [readLiteral]
  | selfClosing tags begins closed =>
      cases he
      have hends : EndsLiteral o s c.rest := by
        obtain ⟨letter, text, hrest, hletter⟩ := begins
        rw [hrest]
        simp [EndsLiteral, Scope.endsLiteral, tags, isTagStart, hletter]
      rw [literals_of_endsLiteral hends, selfClosing?_of_read tags begins closed]
      simp
  | _ => cases he

/-- The literals in front of what is read say what the text says up to there. -/
theorem ElementsRead.exists_behindLiterals {es : List Element} (h : ElementsRead R o s c es d)
    (hstop : Closes o s d.rest) :
    ∃ mid, literals o s false c.rest = (leadingText es, mid.rest) ∧
      ElementsRead R o s mid (behindLiterals es) d := by
  induction h with
  | nil c => exact ⟨c, hstop.literals_eq_nil, .nil c⟩
  | @cons c d f e es first rest ih =>
      obtain ⟨mid, hmid, hbehind⟩ := ih hstop
      by_cases hliteral : ∃ text location, e = .literal text location
      · obtain ⟨text, location, rfl⟩ := hliteral
        refine ⟨mid, ?_, hbehind⟩
        rw [first.literals_cons, hmid]
        rfl
      · have hother : ∀ text location, e ≠ .literal text location :=
          fun text location heq => hliteral ⟨text, location, heq⟩
        refine ⟨c, ?_, ?_⟩
        · rw [first.literals_eq_nil hother]
          cases e with
          | literal text location => exact absurd rfl (hother text location)
          | _ => rfl
        · cases e with
          | literal text location => exact absurd rfl (hother text location)
          | _ => exact .cons first rest

/-- Every run of literals can be read. -/
theorem exists_literals (R : NestedRelation) (o : ParseOptions) (s : Scope) (c : Cursor) :
    ∃ es mid, ElementsRead R o s c es mid ∧ behindLiterals es = [] ∧
      literals o s false c.rest = (leadingText es, mid.rest) := by
  -- Each literal takes a scalar, so what is left behind the first is shorter.
  generalize hn : c.rest.length = n
  induction n using Nat.strongRecOn generalizing c with
  | ind n ih =>
      have hcons {text : String} {location : Location} {d : Cursor}
          (first : ElementRead R o s c (.literal text location) d)
          (hlt : d.rest.length < c.rest.length) : ∃ es mid, ElementsRead R o s c es mid ∧
            behindLiterals es = [] ∧ literals o s false c.rest = (leadingText es, mid.rest) := by
        obtain ⟨es, mid, hread, hall, hsaid⟩ := ih _ (hn ▸ hlt) d rfl
        refine ⟨_ :: es, mid, .cons first hread, hall, ?_⟩
        rw [first.literals_cons, hsaid]
        rfl
      by_cases hends : EndsLiteral o s c.rest
      · cases hself : selfClosing? o c.rest with
        | none =>
            refine ⟨[], c, .nil c, rfl, ?_⟩
            rw [literals_of_endsLiteral hends, hself]
            rfl
        | some pair =>
            obtain ⟨name, rest⟩ := pair
            obtain ⟨d, hread, hd⟩ := exists_selfClosing (R := R) (s := s) hself
            exact hcons hread (hd ▸ length_of_selfClosing? hself)
      · have hread : ElementRead R o s c (readLiteral o s c).1 (readLiteral o s c).2 :=
          .literal hends
        apply hcons hread
        have hsaid := List.length_pos_iff.mpr (literalText_ne_nil hends)
        have hle := length_literalText_le o s false c.rest
        have hmost := literalText_le_length o s false c.rest
        rw [readLiteral, rest_advance, List.length_drop]
        omega

end Derivations

end MessagePattern
