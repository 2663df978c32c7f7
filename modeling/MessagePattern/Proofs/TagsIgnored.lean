/-
# Tags read as text

A message whose tags are well formed can be read without regard to tags.  Then
their angle brackets and names are literal text, and what stands in them belongs
to the text around them.  Everything that is neither text nor tag is read as
before, at the same place.

The two readings do not go hand in hand: one begins a new text at each tag and
the other does not, and where the one has a literal, a tag and another literal
the other has a single literal.  So the reading with tags is followed element by
element from the back.  Whatever is read behind a text without regard to tags can
be read from the beginning of the text on, with its placeholders in front.

Nothing is said of messages that cannot be read with their tags.
-/

import MessagePattern.Proofs.WellFormed
import MessagePattern.Proofs.Tiling

namespace MessagePattern

open Cursor

/-! ## Placeholders -/

mutual

/-- The placeholders of an element: what is left when its text is deleted and its
tags are replaced by what is in them. -/
def Element.placeholders : Element → List Element
  | .literal _ _ => []
  | .selector kind name branches l => [.selector kind name (branchPlaceholders branches) l]
  | .tag _ children _ => placeholders children
  | e => [e]

/-- The placeholders of a text. -/
def placeholders : List Element → List Element
  | [] => []
  | e :: es => e.placeholders ++ placeholders es

/-- Branches with nothing but their placeholders. -/
def branchPlaceholders : List (Branch Element) → List (Branch Element)
  | [] => []
  | ⟨selector, value, l⟩ :: branches =>
    ⟨selector, placeholders value, l⟩ :: branchPlaceholders branches

end

/-! ## Literals that go on -/

/-- Literal text is read from the first cursor over the second, and goes on there
as if it began there. -/
def LiteralOver (o : ParseOptions) (s : Scope) (c d : Cursor) : Prop :=
  ∃ n said, d = c.advance n ∧
    literalText o s false c.rest =
      (said ++ (literalText o s false d.rest).1, n + (literalText o s false d.rest).2)

/-- Placeholders that are read between two cursors, among literals that may not go
on behind the second.  The number `left` is the budget for nested text. -/
def PlaceholdersRead (o : ParseOptions) (left : Nat) (s : Scope) (c : Cursor)
    (found : List Element) (f : Cursor) : Prop :=
  ∃ es, ElementsRead (NestedReader.Gives (readMessage o left)) o s c es f ∧
    EndsLiteral o s f.rest ∧ placeholders es = found

section Reading

variable {o : ParseOptions} {left : Nat} {s : Scope} {c d f : Cursor} {found : List Element}

theorem ElementRead.placeholdersRead {e : Element}
    (h : ElementRead (NestedReader.Gives (readMessage o left)) o s c e d)
    (hfound : PlaceholdersRead o left s d found f) :
    PlaceholdersRead o left s c (e.placeholders ++ found) f := by
  obtain ⟨es, hread, hends, rfl⟩ := hfound
  exact ⟨e :: es, .cons h hread, hends, rfl⟩

/-- The text of a literal may be put in front. -/
theorem LiteralOver.placeholdersRead (h : LiteralOver o s c d)
    (hfound : PlaceholdersRead o left s d found f) : PlaceholdersRead o left s c found f := by
  obtain ⟨n, said, rfl, hover⟩ := h
  obtain ⟨es, hread, hends, rfl⟩ := hfound
  by_cases hn : n = 0
  · subst hn
    exact ⟨es, hread, hends, rfl⟩
  have hbegins : ¬ EndsLiteral o s c.rest := by
    intro hc
    rw [literalText_of_endsLiteral hc] at hover
    have hlength : 0 = n + _ := congrArg Prod.snd hover
    omega
  have hstop : (readLiteral o s c).2 =
      (c.advance n).advance (literalText o s false (c.advance n).rest).2 :=
    calc (readLiteral o s c).2
      _ = c.advance (n + (literalText o s false (c.advance n).rest).2) :=
        congrArg (fun r : List Char × Nat => c.advance r.2) hover
      _ = (c.advance n).advance (literalText o s false (c.advance n).rest).2 :=
        (advance_advance _ _ c).symm
  by_cases hd : EndsLiteral o s (c.advance n).rest
  · rw [literalText_of_endsLiteral hd] at hstop
    exact ⟨_, .cons (.literal hbegins) (hstop ▸ hread), hends, rfl⟩
  · cases hread with
    | nil => exact absurd hends hd
    | cons first rest =>
        -- Where a literal can begin, the first element is one.
        have hfirst := (readElement_iff reaches_of_readMessage).mpr first
        rw [readElement_of_text _ o s hd] at hfirst
        cases hfirst
        exact ⟨_, .cons (.literal hbegins) (hstop ▸ rest), hends, rfl⟩

end Reading

/-! ## The text of tags -/

/-- Nothing that could be syntax where there are no tags. -/
def isPlainText (text : List Char) : Bool :=
  text.all fun c => decide (c ∉ ['\'', '{', '}', '#'])

/-- The text of a tag: a name with white space behind it, and brackets and slashes
around both. -/
theorem isPlainText_tag (before after : List Char) {name space : List Char}
    (hbefore : isPlainText before = true) (hname : isTagName name = true)
    (hspace : space.all isPatternSpace = true) (hafter : isPlainText after = true) :
    isPlainText (before ++ (name ++ (space ++ after))) = true := by
  have hclasses : ['\'', '{', '}', '#'].all (fun c =>
      !isTagLetter c && !isTagNameChar c && !isPatternSpace c) = true := by decide
  simp only [isPlainText, List.all_eq_true, decide_eq_true_eq, List.mem_append,
    Bool.and_eq_true, Bool.not_eq_true'] at hbefore hspace hafter hclasses ⊢
  rintro c (hc | hc | hc | hc) hsyntax
  · exact hbefore c hc hsyntax
  · obtain ⟨⟨hletter, hnameChar⟩, -⟩ := hclasses c hsyntax
    exact isTagName_not_mem hname hletter hnameChar hc
  · obtain ⟨-, hnone⟩ := hclasses c hsyntax
    exact Bool.eq_false_iff.mp hnone (hspace c hc)
  · exact hafter c hc hsyntax

theorem literalOver_of_isPlainText {o : ParseOptions} (hignore : o.ignoreTag = true) (s : Scope)
    {c d : Cursor} {text : List Char} (h : c.Passes text d) (htext : isPlainText text = true) :
    LiteralOver o s c d := by
  have hnot : ∀ c ∈ ['\'', '{', '}', '#'], c ∉ text := by
    simp only [isPlainText, List.all_eq_true, decide_eq_true_eq] at htext
    exact fun c hc hmem => htext c hmem hc
  refine ⟨text.length, text, h.stop, ?_⟩
  rw [h.rest]
  exact literalText_raw hignore (hnot _ (by decide)) (hnot _ (by decide)) (hnot _ (by decide))
    (hnot _ (by decide))

theorem isTagName_of_begins {c : Cursor}
    (begins : ∃ letter text, c.rest = '<' :: letter :: text ∧ isTagLetter letter = true) :
    isTagName c.bump.tagName.1.toList = true := by
  obtain ⟨letter, text, hbegins, hletter⟩ := begins
  exact isTagName_tagName (rest_bump_cons hbegins) hletter

section Tags

variable {o : ParseOptions} (hignore : o.ignoreTag = true) (s : Scope) {c d : Cursor}

include hignore

theorem literalOver_opening {kind : ErrorKind} {location : Location}
    (begins : ∃ letter text, c.rest = '<' :: letter :: text ∧ isTagLetter letter = true)
    (opened : c.bump.tagName.2.skipSpace.expect ['>'] kind location = .ok d) :
    LiteralOver o s c d := by
  have hname := isTagName_of_begins begins
  obtain ⟨_, _, hbegins, -⟩ := begins
  obtain ⟨space, hspace, hpasses⟩ := passes_of_opened hbegins opened
  exact literalOver_of_isPlainText hignore s hpasses
    (isPlainText_tag ['<'] ['>'] (by decide) hname hspace (by decide))

theorem literalOver_closing {name : String} (hname : isTagName name.toList = true)
    {opening : Position} (closed : readClosingTag name opening c = .ok d) :
    LiteralOver o s c d := by
  obtain ⟨space, hspace, hpasses⟩ := passes_of_readClosingTag closed
  exact literalOver_of_isPlainText hignore s hpasses
    (isPlainText_tag ['<', '/'] ['>'] (by decide) hname hspace (by decide))

theorem literalOver_selfClosing
    (begins : ∃ letter text, c.rest = '<' :: letter :: text ∧ isTagLetter letter = true)
    (closed : c.bump.tagName.2.skipSpace.skip? ['/', '>'] = some d) : LiteralOver o s c d := by
  have hname := isTagName_of_begins begins
  obtain ⟨_, _, hbegins, -⟩ := begins
  have hspace : (c.bump.tagName.2.rest.takeWhile isPatternSpace).all isPatternSpace = true :=
    List.all_takeWhile
  have hpasses := (passes_bump hbegins).trans ((passes_tagName _).trans
    ((passes_skipSpace _).trans (.of_skip? closed)))
  exact literalOver_of_isPlainText hignore s hpasses
    (isPlainText_tag ['<'] ['/', '>'] (by decide) hname hspace (by decide))

end Tags

/-! ## Literals in tags and around them -/

/-- The scope of a text when tags are not counted.  A closing brace that ends the
text of a tag may be literal text there. -/
structure Scope.Untags (s s' : Scope) : Prop where
  plural : s'.plural = s.plural
  nested : s'.nested = true → s.nested = true

section Untagged

variable {o o' : ParseOptions} (hignore : o'.ignoreTag = true) {s s' : Scope} (hs : s.Untags s')

include hignore hs

theorem endsLiteral_of_untags {c : Char} {text : List Char}
    (h : Scope.endsLiteral o s c text = false) : Scope.endsLiteral o' s' c text = false := by
  unfold Scope.endsLiteral at h ⊢
  split at h
  · cases h
  · exact Bool.eq_false_iff.mpr fun hnested => Bool.eq_false_iff.mp h (hs.nested hnested)
  · exact hs.plural.trans h
  · simp [hignore]
  · rfl

/-- A literal goes on at least as far when tags are not counted. -/
theorem literalText_untags (quoted : Bool) (text : List Char) :
    literalText o' s' quoted text =
      ((literalText o s quoted text).1 ++
          (literalText o' s' false (text.drop (literalText o s quoted text).2)).1,
        (literalText o s quoted text).2 +
          (literalText o' s' false (text.drop (literalText o s quoted text).2)).2) := by
  have hquote : s'.opensQuote = s.opensQuote := by
    funext c
    simp only [Scope.opensQuote, hs.plural]
  fun_induction literalText o s quoted text with
  | case1 quoted => simp [literalText]
  | case2 quoted text said n hsaid ih =>
      rw [hsaid] at ih
      rw [literalText_pair, ih]
      simp [Nat.add_right_comm]
  | case3 text said n hsaid hpair ih =>
      rw [hsaid] at ih
      have hhead : text.head? ≠ some '\'' := by
        intro hhead
        obtain ⟨rest, rfl⟩ := List.head?_eq_some_iff.mp hhead
        exact hpair rest rfl rfl
      rw [literalText_close o' s' hhead, ih]
      simp [Nat.add_right_comm]
  | case4 c text _ hc said n hsaid ih =>
      rw [hsaid] at ih
      rw [literalText_quoted o' s' hc, ih]
      simp [Nat.add_right_comm]
  | case5 c text _ hopen said n hsaid ih =>
      rw [hsaid] at ih
      obtain ⟨rfl, hopen⟩ := hopen
      rw [literalText_open o' s' (hquote ▸ hopen), ih]
      simp [Nat.add_right_comm]
  | case6 c text _ _ hends => simp
  | case7 c text hpair hopen hends said n hsaid ih =>
      rw [hsaid] at ih
      have hhead : ¬ (c = '\'' ∧ text.head? = some '\'') := by
        rintro ⟨hc, hhead⟩
        obtain ⟨rest, rfl⟩ := List.head?_eq_some_iff.mp hhead
        exact hpair rest hc rfl
      have hplain := endsLiteral_of_untags hignore hs (Bool.eq_false_iff.mpr hends)
      rw [literalText_plain o' s' hhead (hquote ▸ hopen) hplain, ih]
      simp [Nat.add_right_comm]

/-- A literal that ended at a tag goes on there. -/
theorem literalOver_readLiteral (c : Cursor) : LiteralOver o' s' c (readLiteral o s c).2 := by
  have hrest : (readLiteral o s c).2.rest = c.rest.drop (literalText o s false c.rest).2 :=
    rest_advance _ c
  refine ⟨(literalText o s false c.rest).2, (literalText o s false c.rest).1, rfl, ?_⟩
  rw [hrest]
  exact literalText_untags hignore hs false c.rest

end Untagged

/-! ## Texts -/

/-- A text that was read with its tags can be read without regard to them, in
front of whatever can be read so behind it. -/
def ReadsUntagged (o : ParseOptions) (budget : Nat) : NestedRelation := fun s c es d =>
  0 < budget ∧
    ∀ left s', budget ≤ left + 1 → s.Untags s' → ∀ found f,
      PlaceholdersRead o left s' d found f →
        PlaceholdersRead o left s' c (placeholders es ++ found) f

theorem map_selector_branchPlaceholders (branches : List (Branch Element)) :
    (branchPlaceholders branches).map Branch.selector = branches.map Branch.selector := by
  induction branches with
  | nil => rfl
  | cons b branches ih => simp [branchPlaceholders, ih]

section Texts

variable {o o' : ParseOptions} (ho : o' = { o with ignoreTag := true }) {budget left : Nat}
  (hbudget : budget ≤ left) {s s' : Scope} (hs : s.Untags s')

include hbudget in
/-- The texts of branches are on their own, so each is read up to its end. -/
theorem BranchesRead.untagged (s' : Scope) {plural : Bool} {seen : List String} {c d : Cursor}
    {branches : List (Branch Element)}
    (h : BranchesRead (ReadsUntagged o' budget) s plural seen c branches d) :
    ∃ branches', BranchesRead (NestedReader.Gives (readMessage o' left)) s' plural seen c
        branches' d ∧
      branchPlaceholders branches' = branchPlaceholders branches := by
  induction h with
  | nil seen c => exact ⟨[], .nil seen c, rfl⟩
  | @cons seen c opening body stop after d selector value branches selected fresh opened inner
      closed rest ih =>
      obtain ⟨hpos, hvalue⟩ := inner
      obtain ⟨less, rfl⟩ : ∃ less, left = less + 1 := ⟨left - 1, by omega⟩
      have hstop : stop.rest = '}' :: after.rest := (Passes.of_closeBrace closed).rest
      have hcloses : Closes o' (s'.branch plural) stop.rest := hstop ▸ .branch rfl _
      obtain ⟨value', hread, -, hplaceholders⟩ := hvalue less (s'.branch plural) hbudget
        ⟨rfl, fun _ => rfl⟩ [] stop ⟨[], .nil stop, hcloses.endsLiteral, rfl⟩
      obtain ⟨branches', hbranches, hrest⟩ := ih
      refine ⟨_, .cons selected fresh opened (readMessage_succ_iff.mpr ⟨hread, hcloses⟩) closed
        hbranches, ?_⟩
      rw [branchPlaceholders, branchPlaceholders, hplaceholders, hrest, List.append_nil]

include ho hbudget hs

/-- An element that was read with its tags, in front of what is read without
regard to tags. -/
theorem ElementRead.untagged {c d f : Cursor} {e : Element} {found : List Element}
    (h : ElementRead (ReadsUntagged o' budget) o s c e d)
    (hfound : PlaceholdersRead o' left s' d found f) :
    PlaceholdersRead o' left s' c (e.placeholders ++ found) f := by
  have hignore : o'.ignoreTag = true := by rw [ho]
  cases h with
  | literal begins => exact (literalOver_readLiteral hignore hs c).placeholdersRead hfound
  | argument named closed => exact (ElementRead.argument named closed).placeholdersRead hfound
  | number head read closed made =>
      subst ho
      refine ElementRead.placeholdersRead ?_ hfound
      exact .number head read closed made
  | dateTime head read closed made =>
      subst ho
      refine ElementRead.placeholdersRead ?_ hfound
      exact .dateTime head read closed made
  | selector head separated counted read nonempty other closed =>
      obtain ⟨branches', hbranches, hplaceholders⟩ := read.untagged hbudget s'
      have hselectors := congrArg (List.map Branch.selector) hplaceholders
      rw [map_selector_branchPlaceholders, map_selector_branchPlaceholders] at hselectors
      have hnonempty : branches' ≠ [] := by
        rintro rfl
        exact nonempty (List.map_eq_nil_iff.mp hselectors.symm)
      have hother : o'.requiresOtherClause = true →
          "other" ∈ branches'.map Branch.selector := by
        rw [hselectors, ho]
        exact other
      rw [Element.placeholders, ← hplaceholders]
      exact (ElementRead.selector head separated counted hbranches hnonempty hother
        closed).placeholdersRead hfound
  | pound plural sign =>
      exact (ElementRead.pound (hs.plural.trans plural) sign).placeholdersRead hfound
  | selfClosing tags begins closed =>
      exact (literalOver_selfClosing hignore s' begins closed).placeholdersRead hfound
  | tag tags begins opened inner closed =>
      -- From the back: the closing tag, what is in the tag, the opening tag.
      have hclosing := literalOver_closing hignore s' (isTagName_of_begins begins) closed
      have hopening := literalOver_opening hignore s' begins opened
      apply hopening.placeholdersRead
      apply inner.2 left s' (by omega) ⟨hs.plural, fun _ => rfl⟩
      exact hclosing.placeholdersRead hfound

theorem ElementsRead.untagged {c d f : Cursor} {es found : List Element}
    (h : ElementsRead (ReadsUntagged o' budget) o s c es d)
    (hfound : PlaceholdersRead o' left s' d found f) :
    PlaceholdersRead o' left s' c (placeholders es ++ found) f := by
  induction h with
  | nil c => exact hfound
  | cons first rest ih =>
      rw [placeholders, List.append_assoc]
      exact first.untagged ho hbudget hs (ih hfound)

end Texts

theorem readsUntagged_of_readMessage {o : ParseOptions} {budget : Nat} {s : Scope} {c d : Cursor}
    {es : List Element} (h : readMessage o budget s c = .ok (es, d)) :
    ReadsUntagged { o with ignoreTag := true } budget s c es d := by
  apply readMessage_induction ?_ h
  intro budget s c es d hread
  refine ⟨budget.succ_pos, fun left s' hbudget hs found f hfound => ?_⟩
  exact hread.untagged rfl (Nat.le_of_succ_le_succ hbudget) hs hfound

/-- Without regard to tags a message has the same placeholders, with everything
that belongs to them: names, styles, offsets, selectors and locations. -/
theorem placeholders_ignoring_tags {message : String} {o : ParseOptions} {elements : List Element}
    (hparse : parse message o = .ok elements) :
    ∃ elements', parse message { o with ignoreTag := true } = .ok elements' ∧
      placeholders elements' = placeholders elements := by
  obtain ⟨d, hread⟩ := readAll_of_parse hparse
  have hend := rest_of_readAll hread
  have hcloses : Closes { o with ignoreTag := true } .top d.rest := hend ▸ .message
  obtain ⟨elements', hread', -, hplaceholders⟩ := (readsUntagged_of_readMessage hread).2
    o.maxNestingDepth .top (Nat.le_refl _) ⟨rfl, id⟩ [] d ⟨[], .nil d, hcloses.endsLiteral, rfl⟩
  have hall : readAll { o with ignoreTag := true } message.toList = .ok (elements', d) :=
    readMessage_succ_iff.mpr ⟨hread', hcloses⟩
  refine ⟨elements', ?_, ?_⟩
  · rw [parse, hall]
  · rw [hplaceholders, List.append_nil]

/-- A number sign in a tag outside the plural is text, and the one in a tag inside
is not, whether the tags are read as such or not. -/
theorem placeholders_ignoring_tags_number_sign :
    ∃ elements elements',
      parse "<b># {n, plural, other {<i>#</i>}}</b>" {} = .ok elements ∧
      placeholders elements = [.selector (.plural .cardinal 0) "n"
        [⟨"other", [.pound (.inLine 27 28)], .inLine 23 33⟩] (.inLine 5 34)] ∧
      parse "<b># {n, plural, other {<i>#</i>}}</b>" { ignoreTag := true } = .ok elements' ∧
      placeholders elements' = placeholders elements := by
  have hparse : parse "<b># {n, plural, other {<i>#</i>}}</b>" {} =
      .ok [.tag "b" [.literal "# " (.inLine 3 5), .selector (.plural .cardinal 0) "n"
        [⟨"other", [.tag "i" [.pound (.inLine 27 28)] (.inLine 24 32)], .inLine 23 33⟩]
        (.inLine 5 34)] (.inLine 0 38)] := rfl
  obtain ⟨elements', hparse', hplaceholders⟩ := placeholders_ignoring_tags hparse
  exact ⟨_, elements', hparse, rfl, hparse', hplaceholders⟩

end MessagePattern
