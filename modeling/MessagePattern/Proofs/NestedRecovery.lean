/-
# Reading branches and tags that were written

The rules of reading that have text nested in them: plural and select arguments
with their branches, and tags.  That the nested text itself is given back, in
whatever sense, is the hypothesis `RecoversText`; what is shown here is that
everything around it is, and that a hidden offset is the one thing that may go
wrong.
-/

import MessagePattern.Proofs.Exactness
import MessagePattern.Proofs.Recovery

namespace MessagePattern

/-- A reader gives back the text of a scope that was written, seen through `view`,
if `tail` follows it, exactly if `fine` holds of the text, which is directly
inside a plural branch or not. -/
def RecoversText (inner : NestedReader) (view : List Element → List Element)
    (fine : Bool → List Element → Prop) (s : Scope) (es : List Element) (tail : List Char) :
    Prop :=
  ∀ c : Cursor, c.rest = renderElements s.plural es ++ tail →
    Recovers (inner s c) view (view es) tail (fine s.plural es)

/-- What is built from something that was given back is given back as well, if it
can be told from what it was built from. -/
theorem Recovers.build {α β γ δ : Type} {outcome : Except Failure (α × Cursor)} {view : α → β}
    {b : β} {tail tail' : List Char} {fine : Prop} {next : α × Cursor → Except Failure (γ × Cursor)}
    {view' : γ → δ} {b' : δ} (h : Recovers outcome view b tail fine)
    (hnext : ∀ a d, view a = b → d.rest = tail →
      ∃ a' d', next (a, d) = .ok (a', d') ∧ view' a' = b' ∧ d'.rest = tail')
    (hkeeps : ∀ a d a' d', next (a, d) = .ok (a', d') → view' a' = b' → view a = b) :
    Recovers (outcome >>= next) view' b' tail' fine := by
  have hbind : Recovers (outcome >>= next) view' b' tail' (fine ∧ True) :=
    h.bind (fun a d hview hrest => ⟨fun _ => hnext a d hview hrest, fun _ _ _ _ => trivial⟩) hkeeps
  simpa using hbind

/-! ## Selectors -/

theorem isSafeNumeral_of_isExactSelector {text : List Char}
    (h : isExactSelector text = true) :
    ∃ numeral, text = '=' :: numeral ∧ IsSafeNumeral numeral := by
  unfold isExactSelector at h
  split at h
  · next numeral =>
      simp only [Bool.and_eq_true, Bool.not_eq_true', decide_eq_true_eq] at h
      exact ⟨numeral, rfl, by simpa using h.1.1, h.1.2, h.2⟩
  · cases h

/-- A selector does not begin with white space. -/
theorem head?_append_of_isSelectorText {plural : Bool} {text : List Char}
    (h : isSelectorText plural text = true) (tail : List Char) :
    (text ++ tail).head?.any isPatternSpace = false := by
  simp only [isSelectorText, Bool.or_eq_true, Bool.and_eq_true] at h
  rcases h with hword | ⟨-, hexact⟩
  · obtain ⟨ch, rest, htext, -, hspace⟩ := head?_append_of_isIdentifier hword tail
    rw [htext]
    exact hspace
  · obtain ⟨numeral, rfl, -⟩ := isSafeNumeral_of_isExactSelector hexact
    rfl

/-- The word in front of a branch is its selector, unless the selector is exact. -/
theorem identifier_of_selector {plural : Bool} {selector : String} {rest : List Char} {c : Cursor}
    (h : c.rest = selector.toList ++ '{' :: rest)
    (hselector : isSelectorText plural selector.toList = true) :
    (selector ≠ "" ∧ ∃ d, c.identifier = (selector, d) ∧ d.rest = '{' :: rest) ∨
      (plural = true ∧ c.identifier.1 = "" ∧
        ∃ numeral, selector.toList = '=' :: numeral ∧ IsSafeNumeral numeral) := by
  simp only [isSelectorText, Bool.or_eq_true, Bool.and_eq_true] at hselector
  rcases hselector with hword | ⟨hplural, hexact⟩
  · obtain ⟨hne, hall, -⟩ := isIdentifier_iff.mp hword
    obtain ⟨d, hread, hrest⟩ := Cursor.identifier_of_rest h hall rfl
    rw [String.ofList_toList] at hread
    exact .inl ⟨by simpa using hne, d, hread, hrest⟩
  · obtain ⟨numeral, hnumeral, hsafe⟩ := isSafeNumeral_of_isExactSelector hexact
    have hread : c.identifier.1 = "" := Cursor.identifier_eq_empty (by rw [h, hnumeral]; rfl)
    exact .inr ⟨hplural, hread, numeral, hnumeral, hsafe⟩

/-- An exact selector is read whatever follows that is no digit. -/
theorem readSelector_exact {selector : String} {numeral tail : List Char} {c : Cursor}
    (h : c.rest = selector.toList ++ tail) (hselector : selector.toList = '=' :: numeral)
    (hsafe : IsSafeNumeral numeral) (hstop : tail.head?.any Char.isDigit = false) :
    ∃ d, readSelector true c = .ok (some (selector, d)) ∧ d.rest = tail := by
  have hread : c.identifier.1 = "" := Cursor.identifier_eq_empty (by rw [h, hselector]; rfl)
  have hequals : c.rest = ['='] ++ (numeral ++ tail) := by rw [h, hselector]; rfl
  obtain ⟨equals, hskip, hafter⟩ := Cursor.skip?_of_rest ['='] hequals
  obtain ⟨d, hinteger, hrest⟩ := readInteger_of_rest .expectPluralArgumentSelector
    .invalidPluralArgumentSelector hafter hsafe hstop
  have htext : d.textSince c = selector.toList := Cursor.textSince_of_rest (by rw [h, hrest])
  refine ⟨d, ?_, hrest⟩
  simp only [readSelector, hread, ne_eq, not_true_eq_false, if_false, if_true, hskip, hinteger]
  simp [bind, Except.bind, htext]

theorem readSelector_of_rest {plural : Bool} {selector : String} {rest : List Char} {c : Cursor}
    (h : c.rest = selector.toList ++ '{' :: rest)
    (hselector : isSelectorText plural selector.toList = true) :
    ∃ d, readSelector plural c = .ok (some (selector, d)) ∧ d.rest = '{' :: rest := by
  rcases identifier_of_selector h hselector with
    ⟨hne, d, hread, hrest⟩ | ⟨rfl, -, numeral, hnumeral, hsafe⟩
  · refine ⟨d, ?_, hrest⟩
    simp only [readSelector, hread, if_pos hne]
  · exact readSelector_exact h hnumeral hsafe rfl

section Nested

variable {view : List Element → List Element} {fine : Bool → List Element → Prop}

/-! ## Branches -/

/-- The text of a branch is given back if what stands in its braces is, with any
white space in front of them. -/
theorem readFragment_of_text {inner : NestedReader} {s : Scope} {plural : Bool}
    (selector : String) {value : List Element} {space text rest : List Char} {kept : Prop}
    {c : Cursor} (hspace : space.all isPatternSpace)
    (h : c.rest = space ++ '{' :: (text ++ '}' :: rest))
    (hinner : ∀ body : Cursor, body.rest = text ++ '}' :: rest →
      Recovers (inner (s.branch plural) body) view (view value) ('}' :: rest) kept) :
    Recovers (readFragment inner s plural selector c)
      (fun b => (b.selector, view b.value)) (selector, view value)
      (rest.dropWhile isPatternSpace) kept := by
  have hopening : c.skipSpace.rest = '{' :: (text ++ '}' :: rest) := by
    rw [Cursor.rest_skipSpace, h, Cursor.dropWhile_append_of_stop hspace rfl]
  obtain ⟨body, hopen, hbody⟩ := Cursor.expect_of_rest ['{']
    (SelectorErrors.of plural).fragment c.skipSpace.here hopening
  have hread : readFragment inner s plural selector c =
      (do
        let read ← inner (s.branch plural) body
        let d ← read.2.closeBrace c.skipSpace.position
        .ok (⟨selector, read.1, d.since c.skipSpace.position⟩, d.skipSpace)) := by
    simp only [readFragment]
    rw [hopen]
    rfl
  rw [hread]
  apply (hinner body hbody).build
  · intro again d hagain hd
    obtain ⟨after, hclose, hafter⟩ := Cursor.closeBrace_of_rest c.skipSpace.position hd
    refine ⟨⟨selector, again, after.since c.skipSpace.position⟩, after.skipSpace, ?_, ?_, ?_⟩
    · simp only [hclose]
      rfl
    · simp only [hagain]
    · rw [Cursor.rest_skipSpace, hafter]
  · intro again d b d' hok hsame
    obtain ⟨after, -, hok⟩ := bind_eq_ok hok
    cases hok
    exact (Prod.mk.inj hsame).2

theorem head?_renderBranches {plural : Bool} {b : Branch Element}
    (h : isSelectorText plural b.selector.toList = true) (branches : List (Branch Element))
    (tail : List Char) :
    (renderBranches plural (b :: branches) ++ tail).head?.any isPatternSpace = false := by
  rw [renderBranches, List.append_assoc]
  exact head?_append_of_isSelectorText h _

/-- What follows the closing brace of a branch, behind its white space. -/
theorem dropWhile_branches {plural : Bool} {branches : List (Branch Element)}
    (h : ∀ selector ∈ branches.map Branch.selector, isSelectorText plural selector.toList = true)
    (tail : List Char) :
    ((if branches.isEmpty then [] else ' ' :: renderBranches plural branches) ++
        '}' :: tail).dropWhile isPatternSpace =
      renderBranches plural branches ++ '}' :: tail := by
  cases branches with
  | nil => rfl
  | cons b branches =>
      have hspace : [' '].all isPatternSpace := by decide
      have hselector := h b.selector List.mem_cons_self
      exact Cursor.dropWhile_append_of_stop hspace (head?_renderBranches hselector branches _)

/-- A branch whose selector was found is given back, in front of branches that are. -/
theorem readBranches_cons {inner : NestedReader} {s : Scope} {plural : Bool} {bound : Nat}
    {seen : List String} {selector : String} {value : List Element} {location : Location}
    {branches : List (Branch Element)} {space text rest tail : List Char} {kept kept' : Prop}
    {c opening : Cursor} (hread : readSelector plural c = .ok (some (selector, opening)))
    (hfresh : selector ∉ seen) (hspace : space.all isPatternSpace)
    (h : opening.rest = space ++ '{' :: (text ++ '}' :: rest))
    (hinner : ∀ body : Cursor, body.rest = text ++ '}' :: rest →
      Recovers (inner (s.branch plural) body) view (view value) ('}' :: rest) kept)
    (hothers : ∀ d : Cursor, d.rest = rest.dropWhile isPatternSpace →
      Recovers (readBranches inner s plural bound (selector :: seen) d) (seenBranches view)
        (seenBranches view branches) tail kept') :
    Recovers (readBranches inner s plural (bound + 1) seen c) (seenBranches view)
      (seenBranches view (⟨selector, value, location⟩ :: branches)) tail (kept ∧ kept') := by
  rw [readBranches_of_selector hread hfresh]
  apply (readFragment_of_text selector hspace h hinner).bind
  · intro branch d hbranch hd
    obtain ⟨hsel, hvalue⟩ := Prod.mk.inj hbranch
    apply (hothers d hd).build
    · intro again d' hagain hd'
      refine ⟨branch :: again, d', rfl, ?_, hd'⟩
      rw [seenBranches_cons, seenBranches_cons, hagain, hsel, hvalue]
    · intro again d' all d'' hok hsame
      cases hok
      simp only [seenBranches_cons, List.cons.injEq] at hsame
      exact hsame.2
  · intro branch d all d' hok hsame
    obtain ⟨⟨again, last⟩, -, hok⟩ := bind_eq_ok hok
    cases hok
    simp only [seenBranches_cons, List.cons.injEq, Branch.mk.injEq] at hsame
    exact Prod.ext hsame.1.1 hsame.1.2.1

/-- The selectors of further branches are new if those of all branches are distinct
and new. -/
theorem forall_selectors_of_cons {plural : Bool} {selector : String} {selectors seen : List String}
    (h : ∀ other ∈ selector :: selectors, other ∉ seen ∧ isSelectorText plural other.toList = true)
    (hdistinct : (selector :: selectors).Nodup) :
    ∀ other ∈ selectors,
      other ∉ selector :: seen ∧ isSelectorText plural other.toList = true := by
  obtain ⟨hnew, -⟩ := List.nodup_cons.mp hdistinct
  intro other hother
  obtain ⟨hold, htext⟩ := h other (List.mem_cons_of_mem _ hother)
  refine ⟨?_, htext⟩
  rintro (_ | ⟨_, hseen⟩)
  · exact hnew hother
  · exact hold hseen

theorem readBranches_recovers {inner : NestedReader} {s : Scope} {plural : Bool}
    {branches : List (Branch Element)} {seen : List String} {bound : Nat} {tail : List Char}
    {c : Cursor} (h : c.rest = renderBranches plural branches ++ '}' :: tail)
    (hbound : branches.length ≤ bound)
    (hselectors : ∀ selector ∈ branches.map Branch.selector,
      selector ∉ seen ∧ isSelectorText plural selector.toList = true)
    (hdistinct : (branches.map Branch.selector).Nodup)
    (hinner : ∀ b ∈ branches, ∀ rest,
      RecoversText inner view fine (s.branch plural) b.value ('}' :: rest)) :
    Recovers (readBranches inner s plural bound seen c) (seenBranches view)
      (seenBranches view branches) ('}' :: tail) (∀ b ∈ branches, fine plural b.value) := by
  induction branches generalizing seen bound c with
  | nil =>
      refine ⟨fun _ => ⟨[], c, ?_, rfl, h⟩, by simp⟩
      exact readBranches_of_none bound seen (readSelector_of_brace h)
  | cons b branches ih =>
      obtain ⟨selector, value, location⟩ := b
      cases bound with
      | zero => exact absurd hbound (by simp)
      | succ bound =>
          obtain ⟨hfresh, hselector⟩ := hselectors selector List.mem_cons_self
          have hothers := forall_selectors_of_cons hselectors hdistinct
          simp only [renderBranches, List.append_assoc, List.cons_append] at h
          obtain ⟨opening, hread, hopening⟩ := readSelector_of_rest h hselector
          rw [List.forall_mem_cons]
          refine readBranches_cons hread hfresh (List.all_nil (f := isPatternSpace)) hopening
            (hinner _ List.mem_cons_self _) fun d hd => ?_
          rw [dropWhile_branches fun other hother => (hothers other hother).2] at hd
          exact ih hd (by simpa using hbound) hothers hdistinct.tail
            fun b hb => hinner b (List.mem_cons_of_mem _ hb)

theorem length_le_renderBranches (plural : Bool) (branches : List (Branch Element)) :
    branches.length ≤ (renderBranches plural branches).length := by
  induction branches with
  | nil => exact Nat.zero_le _
  | cons b branches ih =>
      cases branches with
      | nil =>
          simp only [renderBranches, List.length_append, List.length_cons, List.length_nil]
          omega
      | cons next branches =>
          rw [renderBranches]
          simp only [List.isEmpty_cons, Bool.false_eq_true, if_false, List.length_append,
            List.length_cons] at ih ⊢
          omega

/-- What is asked of all branches together looks only at their selectors. -/
theorem readAllBranches_of_readBranches {inner : NestedReader} {o : ParseOptions} {s : Scope}
    {plural : Bool} {branches : List (Branch Element)} {tail : List Char} {kept : Prop}
    {c : Cursor} (hselectors : SelectorsWellFormed o plural (branches.map Branch.selector))
    (hread : Recovers (readBranches inner s plural c.rest.length [] c) (seenBranches view)
      (seenBranches view branches) tail kept) :
    Recovers (readAllBranches inner o s plural c) (seenBranches view) (seenBranches view branches)
      tail kept := by
  apply hread.build
  · intro again d hagain hd
    have hsame : again.map Branch.selector = branches.map Branch.selector := by
      rw [← map_selector_seenBranches view, hagain, map_selector_seenBranches]
    have hempty : again.isEmpty = false := by
      rw [← hsame] at hselectors
      simpa using hselectors.nonempty
    have hother : ¬ (o.requiresOtherClause = true ∧ "other" ∉ again.map Branch.selector) := by
      rw [hsame]
      exact fun hmissing => hmissing.2 (hselectors.other hmissing.1)
    refine ⟨again, d, ?_, hagain, hd⟩
    simp only [hempty, Bool.false_eq_true, if_false, if_neg hother]
  · intro again d all d' hok hsame
    simp only at hok
    split at hok
    · cases hok
    split at hok
    · cases hok
    · cases hok
      exact hsame

/-- All branches of a well-formed selector are given back. -/
theorem readAllBranches_recovers {inner : NestedReader} {o : ParseOptions} {s : Scope}
    {plural : Bool} {branches : List (Branch Element)} {tail : List Char} {c : Cursor}
    (h : c.rest = renderBranches plural branches ++ '}' :: tail)
    (hselectors : SelectorsWellFormed o plural (branches.map Branch.selector))
    (hinner : ∀ b ∈ branches, ∀ rest,
      RecoversText inner view fine (s.branch plural) b.value ('}' :: rest)) :
    Recovers (readAllBranches inner o s plural c) (seenBranches view) (seenBranches view branches)
      ('}' :: tail) (∀ b ∈ branches, fine plural b.value) := by
  have hbound : branches.length ≤ c.rest.length := by
    have hle := length_le_renderBranches plural branches
    rw [h, List.length_append]
    omega
  exact readAllBranches_of_readBranches hselectors
    (readBranches_recovers h hbound
      (fun selector hmem => ⟨List.not_mem_nil, hselectors.readable selector hmem⟩)
      hselectors.distinct hinner)

/-! ## Plural and select arguments -/

/-- The argument type by which a selector is written. -/
def SelectorKind.keyword : SelectorKind → String
  | .plural type _ => type.keyword
  | .select => "select"

/-- By what a plural selects, which a select argument does not say. -/
def SelectorKind.pluralType? : SelectorKind → Option PluralType
  | .plural type _ => some type
  | .select => none

/-- The offset of a plural as it is written, which zero is not. -/
def SelectorKind.offsetText : SelectorKind → List Char
  | .plural _ offset =>
    if offset = 0 then [] else "offset:".toList ++ (renderInteger offset ++ [' '])
  | .select => []

theorem renderSelectorKind_eq (kind : SelectorKind) :
    renderSelectorKind kind = kind.keyword.toList ++ ',' :: ' ' :: kind.offsetText := by
  cases kind with
  | plural type offset => exact List.append_assoc ..
  | select => rfl

theorem SelectorKind.offsetText_eq (kind : SelectorKind) :
    kind.offsetText = [] ∨ ∃ text, kind.offsetText = 'o' :: text := by
  cases kind with
  | plural type offset =>
      by_cases hoffset : offset = 0
      · exact .inl (if_pos hoffset)
      · exact .inr ⟨_, if_neg hoffset⟩
  | select => exact .inl rfl

theorem isSome_pluralType? (kind : SelectorKind) : kind.pluralType?.isSome = kind.isPlural := by
  cases kind <;> rfl

theorem lookup_selectorKind (kind : SelectorKind) :
    argumentTypes.lookup kind.keyword = some (.selector kind.pluralType?) ∧
      isIdentifier kind.keyword.toList = true := by
  cases kind with
  | plural type offset =>
      simp only [SelectorKind.keyword, SelectorKind.pluralType?]
      cases type <;> decide
  | select => decide

theorem isPatternSpace_of_isDigit {ch : Char} (h : ch.isDigit = true) :
    isPatternSpace ch = false := by
  simp only [Char.isDigit, Bool.and_eq_true, decide_eq_true_eq, UInt32.le_iff_toNat_le] at h
  have hlow : 48 ≤ ch.toNat := h.1
  have hhigh : ch.toNat ≤ 57 := h.2
  simp only [isPatternSpace, CharClass.within, CharClass.patternWhiteSpace, List.any_cons,
    List.any_nil, Bool.or_false, Bool.or_eq_false_iff, Bool.and_eq_false_imp, decide_eq_true_eq,
    decide_eq_false_iff_not, not_le]
  omega

/-- An integer that is written begins with its sign or a digit. -/
theorem head?_renderInteger (n : Int) (tail : List Char) :
    (renderInteger n ++ tail).head?.any isPatternSpace = false := by
  by_cases hneg : n < 0
  · simp [renderInteger, hneg, show isPatternSpace '-' = false from rfl]
  · obtain ⟨ch, digits, hdigits⟩ :=
      List.exists_cons_of_ne_nil (Nat.toDigits_ne_nil (b := 10) (n := n.natAbs))
    have hch : ch.isDigit = true :=
      Nat.isDigit_of_mem_toDigits (by decide) (by decide) (hdigits ▸ List.mem_cons_self)
    simp [renderInteger, hneg, hdigits, isPatternSpace_of_isDigit hch]

theorem isDigit_of_isPatternSpace {ch : Char} (h : isPatternSpace ch = true) :
    ch.isDigit = false := by
  rw [Bool.eq_false_iff]
  intro hdigit
  rw [isPatternSpace_of_isDigit hdigit] at h
  cases h

/-- An offset that was written is read, with any white space in front of its value
and some behind it. -/
theorem readOffset_written {offset : Int} {before behind tail : List Char} {c : Cursor}
    (h : c.rest = "offset:".toList ++ (before ++ (renderInteger offset ++ (behind ++ tail))))
    (hsafe : offset.natAbs ≤ maxSafeInteger) (hbefore : before.all isPatternSpace)
    (hbehind : behind.all isPatternSpace) (hapart : behind ≠ [])
    (hspace : tail.head?.any isPatternSpace = false) :
    ∃ d, readOffset true c = .ok (offset, d) ∧ d.rest = tail := by
  have htext : c.rest = "offset".toList ++
      ':' :: (before ++ (renderInteger offset ++ (behind ++ tail))) := by
    simpa using h
  obtain ⟨word, hword, hcolon⟩ := Cursor.identifier_of_rest htext (by decide) rfl
  obtain ⟨colon, hexpect, hvalue⟩ := Cursor.expect_of_rest [':']
    .expectPluralArgumentOffsetValue word.here hcolon
  have hnumeral : colon.skipSpace.rest = renderInteger offset ++ (behind ++ tail) := by
    rw [Cursor.rest_skipSpace, hvalue]
    exact Cursor.dropWhile_append_of_stop hbefore (head?_renderInteger offset _)
  have hdigit : (behind ++ tail).head?.any Char.isDigit = false := by
    obtain ⟨ch, behind, rfl⟩ := List.exists_cons_of_ne_nil hapart
    simpa using isDigit_of_isPatternSpace (List.all_eq_true.mp hbehind ch List.mem_cons_self)
  obtain ⟨stop, hinteger, hstop⟩ := readInteger_of_rest .expectPluralArgumentOffsetValue
    .invalidPluralArgumentOffsetValue hnumeral (isSafeNumeral_renderInteger hsafe) hdigit
  rw [numeralValue_renderInteger] at hinteger
  refine ⟨stop.skipSpace, ?_, ?_⟩
  · simp only [readOffset, hword, String.ofList_toList, and_self, if_true]
    simp [bind, Except.bind, hexpect, hinteger]
  · rw [Cursor.rest_skipSpace, hstop, Cursor.dropWhile_append_of_stop hbehind hspace]

/-- In front of a branch there is no offset, unless its selector is taken for the
word in front of one; then reading fails. -/
theorem readOffset_unwritten {selector : String} {rest : List Char} {c : Cursor}
    (h : c.rest = selector.toList ++ '{' :: rest)
    (hselector : isSelectorText true selector.toList = true) :
    if selector = "offset" then ∀ n d, readOffset true c ≠ .ok (n, d)
    else readOffset true c = .ok (0, c) := by
  rcases identifier_of_selector h hselector with
    ⟨-, d, hread, hd⟩ | ⟨-, hread, numeral, hnumeral, -⟩
  · split
    · next hword =>
        intro n d' hok
        simp only [readOffset, hread, hword, and_self, if_true] at hok
        obtain ⟨colon, hcolon, -⟩ := bind_eq_ok hok
        exact absurd hcolon (Cursor.expect_ne_ok_of_head hd (by decide))
    · next hword => simp [readOffset, hread, hword]
  · have hword : selector ≠ "offset" := by
      rintro rfl
      cases hnumeral
    rw [if_neg hword]
    simp [readOffset, hread]

/-- The offset in front of the branches is given back, unless it is a zero that is
not written and the first selector is taken for the word in front of an offset. -/
theorem readOffset_recovers {o : ParseOptions} {kind : SelectorKind}
    {branches : List (Branch Element)} {tail : List Char} {c : Cursor}
    (h : c.rest = kind.offsetText ++ (renderBranches kind.isPlural branches ++ tail))
    (hsafe : kind.isSafe = true)
    (hselectors : SelectorsWellFormed o kind.isPlural (branches.map Branch.selector)) :
    Recovers (readOffset kind.isPlural c) (selectorKind · kind.pluralType?) kind
      (renderBranches kind.isPlural branches ++ tail) (kind.hidesOffset branches = false) := by
  obtain ⟨b, branches, rfl⟩ :=
    List.exists_cons_of_ne_nil (by simpa using hselectors.nonempty : branches ≠ [])
  have hselector := hselectors.readable b.selector List.mem_cons_self
  cases kind with
  | select =>
      refine ⟨fun _ => ⟨0, c, ?_, rfl, h⟩, fun _ _ _ _ => rfl⟩
      simp [readOffset, SelectorKind.isPlural]
  | plural type offset =>
      simp only [SelectorKind.isPlural, SelectorKind.isSafe, decide_eq_true_eq]
        at hselector hsafe h ⊢
      by_cases hoffset : offset = 0
      · subst hoffset
        have hbranch : c.rest = b.selector.toList ++ '{' :: (renderElements true b.value ++ '}' ::
            ((if branches.isEmpty then [] else ' ' :: renderBranches true branches) ++ tail)) := by
          simpa [SelectorKind.offsetText, renderBranches] using h
        have hread := readOffset_unwritten hbranch hselector
        have hhides : (SelectorKind.plural type 0).hidesOffset (b :: branches) =
            (b.selector == "offset") := by
          simp [SelectorKind.hidesOffset]
        rw [hhides, beq_eq_false_iff_ne]
        split at hread
        · next hword =>
            exact ⟨fun hfine => absurd hword hfine, fun n d hok _ => absurd hok (hread n d)⟩
        · next hword =>
            exact ⟨fun _ => ⟨0, c, hread, rfl, h⟩, fun _ _ _ _ => hword⟩
      · refine ⟨fun _ => ?_, fun _ _ _ _ => by simp [SelectorKind.hidesOffset, hoffset]⟩
        have hwritten : c.rest = "offset:".toList ++ ([] ++ (renderInteger offset ++ ([' '] ++
            (renderBranches true (b :: branches) ++ tail)))) := by
          simpa [SelectorKind.offsetText, hoffset] using h
        obtain ⟨d, hread, hd⟩ := readOffset_written hwritten hsafe List.all_nil (by decide)
          (by decide) (head?_renderBranches hselector branches tail)
        exact ⟨offset, d, hread, rfl, hd⟩

theorem head?_offsetText_append {o : ParseOptions} {kind : SelectorKind}
    {branches : List (Branch Element)}
    (h : SelectorsWellFormed o kind.isPlural (branches.map Branch.selector)) (tail : List Char) :
    (kind.offsetText ++ (renderBranches kind.isPlural branches ++ tail)).head?.any
      isPatternSpace = false := by
  obtain ⟨b, branches, rfl⟩ :=
    List.exists_cons_of_ne_nil (by simpa using h.nonempty : branches ≠ [])
  rcases kind.offsetText_eq with hnone | ⟨text, hsome⟩
  · rw [hnone]
    exact head?_renderBranches (h.readable b.selector List.mem_cons_self) branches tail
  · rw [hsome]
    rfl

/-- A plural or select argument is given back if its offset and its branches are. -/
theorem readSelectorArgument_of_parts {inner : NestedReader} {o : ParseOptions} {s : Scope}
    {kind : SelectorKind} {name : String} {branches : List (Branch Element)}
    {location : Location} (opening : Position) {mid tail : List Char} {kept kept' : Prop}
    {c comma : Cursor}
    (hcomma : c.skipSpace.expect [','] .expectSelectArgumentOptions c.here = .ok comma)
    (hoffset : Recovers (readOffset kind.isPlural comma.skipSpace)
      (selectorKind · kind.pluralType?) kind mid kept)
    (hbranches : ∀ d : Cursor, d.rest = mid →
      Recovers (readAllBranches inner o s kind.isPlural d) (seenBranches view)
        (seenBranches view branches) ('}' :: tail) kept') :
    Recovers (readSelectorArgument inner o s kind.pluralType? name opening c)
      (Element.seen view) ((Element.selector kind name branches location).seen view) tail
      (kept ∧ kept') := by
  have hread : readSelectorArgument inner o s kind.pluralType? name opening c =
      (do
        let counted ← readOffset kind.isPlural comma.skipSpace
        let read ← readAllBranches inner o s kind.isPlural counted.2
        let d ← read.2.closeBrace opening
        .ok (.selector (selectorKind counted.1 kind.pluralType?) name read.1 (d.since opening),
          d)) := by
    simp only [readSelectorArgument, isSome_pluralType?]
    rw [hcomma]
    rfl
  rw [hread]
  apply hoffset.bind
  · intro offset d hoffset hd
    simp only [hoffset]
    apply (hbranches d hd).build
    · intro again d' hagain hd'
      obtain ⟨last, hclose, hlast⟩ := Cursor.closeBrace_of_rest opening hd'
      refine ⟨.selector kind name again (last.since opening), last, ?_, ?_, hlast⟩
      · simp only [hclose]
        rfl
      · simp only [Element.seen, hagain]
    · intro again d' e d'' hok hsame
      obtain ⟨last, -, hok⟩ := bind_eq_ok hok
      cases hok
      simp only [Element.seen, Element.selector.injEq] at hsame
      exact hsame.2.2.1
  · intro offset d e d' hok hsame
    obtain ⟨⟨again, last⟩, -, hok⟩ := bind_eq_ok hok
    obtain ⟨closed, -, hok⟩ := bind_eq_ok hok
    cases hok
    simp only [Element.seen, Element.selector.injEq] at hsame
    exact hsame.1

theorem readSelectorArgument_recovers {inner : NestedReader} {o : ParseOptions} {s : Scope}
    {kind : SelectorKind} {name : String} {branches : List (Branch Element)}
    {location : Location} (opening : Position) {tail : List Char} {c : Cursor}
    (h : c.rest = ',' :: ' ' :: (kind.offsetText ++
      (renderBranches kind.isPlural branches ++ '}' :: tail)))
    (hsafe : kind.isSafe = true)
    (hselectors : SelectorsWellFormed o kind.isPlural (branches.map Branch.selector))
    (hinner : ∀ b ∈ branches, ∀ rest,
      RecoversText inner view fine (s.branch kind.isPlural) b.value ('}' :: rest)) :
    Recovers (readSelectorArgument inner o s kind.pluralType? name opening c)
      (Element.seen view) ((Element.selector kind name branches location).seen view) tail
      (kind.hidesOffset branches = false ∧ ∀ b ∈ branches, fine kind.isPlural b.value) := by
  have hskip : c.skipSpace = c := Cursor.skipSpace_eq_self (by rw [h]; rfl)
  obtain ⟨comma, hcomma, hspace⟩ :=
    Cursor.expect_of_rest [','] .expectSelectArgumentOptions c.here h
  have hoffset := readOffset_recovers
    (Cursor.rest_skipSpace_of_space hspace (head?_offsetText_append hselectors _)) hsafe hselectors
  exact readSelectorArgument_of_parts opening (hskip.symm ▸ hcomma) hoffset fun d hd =>
    readAllBranches_recovers hd hselectors hinner

theorem readArgument_selector {inner : NestedReader} {o : ParseOptions} {s : Scope}
    {kind : SelectorKind} {name : String} {branches : List (Branch Element)}
    {location : Location} {tail : List Char} {c : Cursor}
    (h : c.rest = renderElement s.plural (.selector kind name branches location) ++ tail)
    (hname : isIdentifier name.toList = true) (hsafe : kind.isSafe = true)
    (hselectors : SelectorsWellFormed o kind.isPlural (branches.map Branch.selector))
    (hinner : ∀ b ∈ branches, ∀ rest,
      RecoversText inner view fine (s.branch kind.isPlural) b.value ('}' :: rest)) :
    Recovers (readArgument inner o s c) (Element.seen view)
      ((Element.selector kind name branches location).seen view) tail
      (kind.hidesOffset branches = false ∧ ∀ b ∈ branches, fine kind.isPlural b.value) := by
  have hrest : c.rest = '{' :: (name.toList ++ ',' :: ' ' :: (kind.keyword.toList ++
      ',' :: ' ' :: (kind.offsetText ++
        (renderBranches kind.isPlural branches ++ '}' :: tail)))) := by
    simp [h, renderElement, renderSelectorKind_eq]
  obtain ⟨hlookup, hkeyword⟩ := lookup_selectorKind kind
  obtain ⟨named, hread, hnamed⟩ :=
    readArgument_of_rest inner o s hrest hname (by decide) (by decide)
  obtain ⟨typed, hread', htyped⟩ :=
    readArgumentTail_of_rest inner o s name c.position hnamed hkeyword (by decide) hlookup
  rw [hread, hread']
  exact readSelectorArgument_recovers c.position htyped hsafe hselectors hinner

/-! ## Tags -/

theorem tagName_of_isTagName {name : String} {tail : List Char} {c : Cursor}
    (h : c.rest = name.toList ++ tail) (hname : isTagName name.toList = true)
    (hstop : tail.head?.any isTagNameChar = false) :
    ∃ d, c.tagName = (name, d) ∧ d.rest = tail := by
  cases htext : name.toList with
  | nil => simp [htext, isTagName] at hname
  | cons letter text =>
      rw [htext] at h hname
      simp only [isTagName, Bool.and_eq_true] at hname
      obtain ⟨d, hread, hd⟩ := Cursor.tagName_of_rest h hname.2 hstop
      rw [← htext, String.ofList_toList] at hread
      exact ⟨d, hread, hd⟩

theorem readClosingTag_of_rest {name : String} (opening : Position) {tail : List Char} {c : Cursor}
    (h : c.rest = '<' :: '/' :: (name.toList ++ '>' :: tail))
    (hname : isTagName name.toList = true) :
    ∃ d, readClosingTag name opening c = .ok d ∧ d.rest = tail := by
  obtain ⟨slash, hslash, hafter⟩ :=
    Cursor.expect_of_rest ['<', '/'] .unclosedTag (c.since opening) h
  obtain ⟨named, hread, hnamed⟩ := tagName_of_isTagName hafter hname rfl
  have hletter : slash.rest.head?.any isTagLetter = true := by
    rw [hafter]
    exact head?_append_of_isTagName hname _
  have hskip : named.skipSpace = named := Cursor.skipSpace_eq_self (by rw [hnamed]; rfl)
  obtain ⟨d, hclose, hd⟩ :=
    Cursor.expect_of_rest ['>'] .invalidTag (named.since c.position) hnamed
  refine ⟨d, ?_, hd⟩
  simp [readClosingTag, hslash, bind, Except.bind, hletter, hread, hskip, hclose]

/-- A tag is given back if what stands in it is. -/
theorem readTag_of_text {inner : NestedReader} {s : Scope} {name : String}
    {children : List Element} {location : Location} {text tail : List Char} {kept : Prop}
    {c : Cursor}
    (h : c.rest = '<' :: (name.toList ++ '>' :: (text ++ '<' :: '/' :: (name.toList ++
      '>' :: tail))))
    (hname : isTagName name.toList = true)
    (hinner : ∀ body : Cursor, body.rest = text ++ '<' :: '/' :: (name.toList ++ '>' :: tail) →
      Recovers (inner s.tagBody body) view (view children)
        ('<' :: '/' :: (name.toList ++ '>' :: tail)) kept) :
    Recovers (readTag inner s c) (Element.seen view)
      ((Element.tag name children location).seen view) tail kept := by
  obtain ⟨named, hread, hnamed⟩ := tagName_of_isTagName (Cursor.rest_bump_cons h) hname rfl
  have hskip : named.skipSpace = named := Cursor.skipSpace_eq_self (by rw [hnamed]; rfl)
  have hslash : named.skip? ['/', '>'] = none := Cursor.skip?_eq_none_of_head hnamed (by decide)
  obtain ⟨body, hopen, hbody⟩ :=
    Cursor.expect_of_rest ['>'] .invalidTag (named.since c.position) hnamed
  have htag : readTag inner s c =
      (do
        let read ← inner s.tagBody body
        let d ← readClosingTag name c.position read.2
        .ok (.tag name read.1 (d.since c.position), d)) := by
    simp only [readTag, hread, hskip, hslash]
    rw [hopen]
    rfl
  rw [htag]
  apply (hinner body hbody).build
  · intro again d hagain hd
    obtain ⟨last, hclose, hlast⟩ := readClosingTag_of_rest c.position hd hname
    refine ⟨.tag name again (last.since c.position), last, ?_, ?_, hlast⟩
    · simp only [hclose]
      rfl
    · simp only [Element.seen, hagain]
  · intro again d e d' hok hsame
    obtain ⟨last, -, hok⟩ := bind_eq_ok hok
    cases hok
    simp only [Element.seen, Element.tag.injEq] at hsame
    exact hsame.2.1

theorem readTag_recovers {inner : NestedReader} {s : Scope} {name : String}
    {children : List Element} {location : Location} {tail : List Char} {c : Cursor}
    (h : c.rest = renderElement s.plural (.tag name children location) ++ tail)
    (hname : isTagName name.toList = true)
    (hinner : ∀ rest, RecoversText inner view fine s.tagBody children ('<' :: '/' :: rest)) :
    Recovers (readTag inner s c) (Element.seen view)
      ((Element.tag name children location).seen view) tail (fine s.plural children) := by
  have hrest : c.rest = '<' :: (name.toList ++ '>' :: (renderElements s.plural children ++
      '<' :: '/' :: (name.toList ++ '>' :: tail))) := by
    simp [h, renderElement]
  exact readTag_of_text hrest hname (hinner _)

/-! ## Elements other than literals -/

/-- What an element needs to be written and read, apart from the texts in it. -/
def Element.Legible (o : ParseOptions) : Element → Prop
  | .literal text _ => text ≠ ""
  | .argument name _ => isIdentifier name.toList = true
  | .number name style _ =>
    isIdentifier name.toList = true ∧ ∀ k ∈ style, NumberStyleWellFormed o k
  | .dateTime _ name style _ =>
    isIdentifier name.toList = true ∧ ∀ k ∈ style, DateTimeStyleWellFormed o k
  | .selector kind name branches _ =>
    isIdentifier name.toList = true ∧ kind.isSafe = true ∧
      SelectorsWellFormed o kind.isPlural (branches.map Branch.selector)
  | .pound _ => True
  | .tag name _ _ => o.ignoreTag = false ∧ isTagName name.toList = true

/-- Every element that may follow a literal ends it. -/
theorem endsLiteral_renderElement {o : ParseOptions} {s : Scope} {e : Element}
    (hlegible : e.Legible o) (hsign : ∀ location, e = .pound location → s.plural = true)
    (hself : ∀ text location, e = .literal text location →
      o.ignoreTag = false ∧ isSelfClosingTag text.toList = true) (tail : List Char) :
    EndsLiteral o s (renderElement s.plural e ++ tail) := by
  cases e with
  | literal text location =>
      obtain ⟨htags, hself⟩ := hself text location rfl
      obtain ⟨name, htext, hname⟩ := isSelfClosingTag_iff.mp hself
      rw [renderElement, renderLiteral, if_pos hself, htext, List.cons_append, List.append_assoc]
      exact endsLiteral_tag s htags hname _
  | argument | number | dateTime | selector => exact rfl
  | pound location => exact hsign location rfl
  | tag name children location =>
      obtain ⟨htags, hname⟩ := hlegible
      rw [renderElement, List.cons_append, List.append_assoc]
      exact endsLiteral_tag s htags hname _

/-- The texts in an element are given back. -/
def Element.RecoversTexts (inner : NestedReader) (view : List Element → List Element)
    (fine : Bool → List Element → Prop) (s : Scope) : Element → Prop
  | .selector kind _ branches _ => ∀ b ∈ branches, ∀ rest,
    RecoversText inner view fine (s.branch kind.isPlural) b.value ('}' :: rest)
  | .tag _ children _ => ∀ rest,
    RecoversText inner view fine s.tagBody children ('<' :: '/' :: rest)
  | _ => True

/-- Nothing that the element needs is lost when it is written, if the texts in it
need `fine`. -/
def Element.Keeps (fine : Bool → List Element → Prop) (inPlural : Bool) : Element → Prop
  | .number _ style _ => ∀ k ∈ style, NumberStyleReprintable k
  | .selector kind _ branches _ =>
    kind.hidesOffset branches = false ∧ ∀ b ∈ branches, fine kind.isPlural b.value
  | .tag _ children _ => fine inPlural children
  | _ => True

/-- An element that is no literal is given back if the texts in it are. -/
theorem readElement_recovers {inner : NestedReader} {o : ParseOptions} {s : Scope} {e : Element}
    {tail : List Char} {c : Cursor} (h : c.rest = renderElement s.plural e ++ tail)
    (hother : ∀ text location, e ≠ .literal text location) (hlegible : e.Legible o)
    (hsign : ∀ location, e = .pound location → s.plural = true)
    (hinner : e.RecoversTexts inner view fine s) :
    ElementRecovers (readElement inner o s c) view e tail (e.Keeps fine s.plural) := by
  cases e with
  | literal text location => exact absurd rfl (hother text location)
  | argument name location =>
      rw [readElement_of_brace inner o s h]
      exact ((readArgument_argument inner o s h hlegible).seen rfl).map_some
  | number name style location =>
      rw [readElement_of_brace inner o s h]
      exact ((readArgument_number inner s h hlegible.1 hlegible.2).seen rfl).map_some
  | dateTime kind name style location =>
      rw [readElement_of_brace inner o s h]
      exact ((readArgument_dateTime inner s h hlegible.1 hlegible.2).seen rfl).map_some
  | selector kind name branches location =>
      obtain ⟨hname, hsafe, hselectors⟩ := hlegible
      rw [readElement_of_brace inner o s h]
      exact (readArgument_selector h hname hsafe hselectors hinner).map_some
  | pound location =>
      have hrest : c.rest = '#' :: tail := h
      refine ⟨fun _ => ⟨.pound (c.bump.since c.position), c.bump, ?_, rfl,
        Cursor.rest_bump_cons hrest⟩, fun _ _ _ _ => trivial⟩
      simp [readElement, hrest, hsign location rfl]
  | tag name children location =>
      obtain ⟨htags, hname⟩ := hlegible
      have hrest := h
      rw [renderElement, List.cons_append, List.append_assoc] at hrest
      rw [readElement_of_letter inner o s htags hrest (head?_append_of_isTagName hname _)]
      exact (readTag_recovers h hname hinner).map_some

end Nested

/-! ## Self-closing tags -/

/-- A literal of the form of a self-closing tag is read as one. -/
theorem readTag_selfClosing (inner : NestedReader) (s : Scope) {text : String}
    {location : Location} {tail : List Char} {c : Cursor}
    (h : c.rest = renderElement s.plural (.literal text location) ++ tail)
    (hself : isSelfClosingTag text.toList = true) :
    Recovers (readTag inner s c) Element.erase (Element.literal text location).erase tail True := by
  obtain ⟨name, htext, hname⟩ := isSelfClosingTag_iff.mp hself
  have hrest : c.rest = '<' :: ((String.ofList name).toList ++ '/' :: '>' :: tail) := by
    rw [h, renderElement, renderLiteral, if_pos hself, htext]
    simp
  obtain ⟨named, hread, hnamed⟩ :=
    tagName_of_isTagName (Cursor.rest_bump_cons hrest) (by simpa using hname) rfl
  have hskip : named.skipSpace = named := Cursor.skipSpace_eq_self (by rw [hnamed]; rfl)
  obtain ⟨d, hslash, hd⟩ := Cursor.skip?_of_rest ['/', '>'] hnamed
  have hsame : "<" ++ String.ofList name ++ "/>" = text := by
    apply String.toList_injective
    simp [htext]
  refine ⟨fun _ => ⟨.literal text (d.since c.position), d, ?_, rfl, hd⟩, fun _ _ _ _ => trivial⟩
  simp only [readTag, hread, hskip, hslash, hsame]

end MessagePattern
