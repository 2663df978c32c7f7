/-
# Neat layouts

White space between the parts of arguments is insignificant: a canonical tree is
read from any neat layout of it as it is read from what is written.  It is
insignificant no further than that, since a tree is not read from a layout that is
not neat; a directional mark behind a name is the smallest case.

The induction is on the layout, together with the tree that it is of.  Its step is
that every element is given back from its layout, whatever stands behind it, as
long as the text of a literal is over there.
-/

import MessagePattern.Proofs.LayoutReading

namespace MessagePattern

/-! ## Branches -/

theorem BranchLayouts.length_le_text (plural : Bool) :
    ∀ {branches : List (Branch Element)} (layouts : BranchLayouts branches),
      branches.length ≤ (layouts.text plural).length
  | _, .nil => Nat.zero_le _
  | _, .cons behindSelector behindBranch value rest => by
      have hle := rest.length_le_text plural
      simp only [BranchLayouts.text, List.length_append, List.length_cons]
      omega

/-- Branches do not begin with white space. -/
theorem BranchLayouts.head?_text {plural : Bool} {branches : List (Branch Element)}
    (layouts : BranchLayouts branches)
    (h : ∀ selector ∈ branches.map Branch.selector, isSelectorText plural selector.toList = true)
    (tail : List Char) :
    (layouts.text plural ++ '}' :: tail).head?.any isPatternSpace = false := by
  cases layouts with
  | nil => rfl
  | cons behindSelector behindBranch value rest =>
      rw [BranchLayouts.text, List.append_assoc]
      exact head?_append_of_isSelectorText (h _ List.mem_cons_self) _

section Steps

variable {inner : NestedReader} {o : ParseOptions} {s : Scope} {plural : Bool} {c : Cursor}
  {location : Location} {tail : List Char}

/-- A branch is given back if its selector and its text are, in front of branches that
are. -/
theorem readBranches_cons_layout {behindSelector behindBranch : Gap} {bound : Nat}
    {seen : List String} {selector : String} {value : List Element}
    {branches : List (Branch Element)} {text rest : List Char} {kept kept' : Prop}
    (h : c.rest = selector.toList ++ (behindSelector.chars ++ '{' :: (text ++
      '}' :: (behindBranch.chars ++ rest))))
    (hselector : isSelectorText plural selector.toList = true) (hfresh : selector ∉ seen)
    (hrest : rest.head?.any isPatternSpace = false)
    (hvalue : ∀ body : Cursor, body.rest = text ++ '}' :: (behindBranch.chars ++ rest) →
      Recovers (inner (s.branch plural) body) eraseElements (eraseElements value)
        ('}' :: (behindBranch.chars ++ rest)) kept)
    (hothers : ∀ d : Cursor, d.rest = rest →
      Recovers (readBranches inner s plural bound (selector :: seen) d)
        (seenBranches eraseElements) (seenBranches eraseElements branches) tail kept') :
    Recovers (readBranches inner s plural (bound + 1) seen c) (seenBranches eraseElements)
      (seenBranches eraseElements (⟨selector, value, location⟩ :: branches)) tail
      (((isIdentifier selector.toList = true → behindSelector.Parts) ∧ kept) ∧ kept') := by
  obtain ⟨word, opening, hread, ⟨left, hopening⟩, hword⟩ :=
    exists_readSelector behindSelector h hselector
  rw [and_assoc, ← hword]
  -- A word that took marks of the gap is another selector than the branch has.
  apply Recovers.guard
  · intro again d hok hsame
    cases branchesRead_of_ok (R := inner.Gives) (fun _ _ _ _ => id) hok with
    | nil => cases hsame
    | cons selected =>
        cases hread.symm.trans selected
        simp only [seenBranches_cons, List.cons.injEq, Branch.mk.injEq] at hsame
        exact hsame.1.1
  · rintro rfl
    refine readBranches_cons hread hfresh left.space hopening hvalue fun d hd => hothers d ?_
    rw [hd, Cursor.dropWhile_append_of_stop behindBranch.space hrest]

/-- The offset in front of the branches is read, whatever the layout is. -/
theorem readOffset_layout {kind : SelectorKind} {behindColon behindOffset : Gap}
    (apart : behindOffset.chars ≠ []) {branches : List (Branch Element)}
    (layouts : BranchLayouts branches)
    (h : c.rest = layoutOffset behindColon behindOffset kind ++
      (layouts.text kind.isPlural ++ '}' :: tail))
    (hsafe : kind.isSafe = true)
    (hselectors : SelectorsWellFormed o kind.isPlural (branches.map Branch.selector))
    (hshown : kind.hidesOffset branches = false) :
    Recovers (readOffset kind.isPlural c) (selectorKind · kind.pluralType?) kind
      (layouts.text kind.isPlural ++ '}' :: tail) True := by
  refine ⟨fun _ => ?_, fun _ _ _ _ => trivial⟩
  have hhead := layouts.head?_text hselectors.readable tail
  cases kind with
  | select => exact ⟨0, c, by simp [readOffset, SelectorKind.isPlural], rfl, h⟩
  | plural type offset =>
      simp only [SelectorKind.isPlural, SelectorKind.isSafe, decide_eq_true_eq, layoutOffset]
        at hhead hsafe h ⊢
      by_cases hoffset : offset = 0
      · rw [if_pos hoffset, List.nil_append] at h
        cases layouts with
        | nil => exact absurd rfl hselectors.nonempty
        | @cons selector value place branches behindSelector behindBranch valueLayouts rest =>
            have hother : selector ≠ "offset" := by
              simpa [SelectorKind.hidesOffset, hoffset] using hshown
            have hbranch := h
            simp only [BranchLayouts.text, List.append_assoc, List.cons_append] at hbranch
            have hread := readOffset_of_selector behindSelector hbranch
              (hselectors.readable selector List.mem_cons_self) hother
            exact ⟨0, c, hread, by rw [hoffset]; rfl, h⟩
      · simp only [if_neg hoffset, List.append_assoc] at h
        obtain ⟨d, hread, hd⟩ := readOffset_written h hsafe behindColon.space behindOffset.space
          apart hhead
        exact ⟨offset, d, hread, rfl, hd⟩

/-- A plural or select argument is given back if its branches are. -/
theorem readArgument_selector_layout {kind : SelectorKind} {name : String}
    {branches : List (Branch Element)} {head : HeadLayout}
    {behindComma behindColon behindOffset : Gap} (apart : behindOffset.chars ≠ [])
    (layouts : BranchLayouts branches)
    (h : c.rest = head.text name kind.keyword ++ ',' :: (behindComma.chars ++
      (layoutOffset behindColon behindOffset kind ++ (layouts.text kind.isPlural ++ '}' :: tail))))
    (hname : isIdentifier name.toList = true) (hsafe : kind.isSafe = true)
    (hselectors : SelectorsWellFormed o kind.isPlural (branches.map Branch.selector))
    (hshown : kind.hidesOffset branches = false)
    (hbranches : ∀ d : Cursor, d.rest = layouts.text kind.isPlural ++ '}' :: tail →
      Recovers (readBranches inner s kind.isPlural d.rest.length [] d)
        (seenBranches eraseElements) (seenBranches eraseElements branches) ('}' :: tail)
        layouts.Neat) :
    Recovers (readArgument inner o s c) Element.erase
      (Element.selector kind name branches location).erase tail (head.Neat ∧ layouts.Neat) := by
  apply Recovers.of_head h hname (lookup_selectorKind kind).1 rfl rfl
  intro d hd
  obtain ⟨comma, hcomma, hrest⟩ := Cursor.expect_of_rest [','] .expectSelectArgumentOptions d.here
    (head.behindType.rest_skipSpace hd rfl)
  have hbegin : (layoutOffset behindColon behindOffset kind ++
      (layouts.text kind.isPlural ++ '}' :: tail)).head?.any isPatternSpace = false := by
    have hhead := layouts.head?_text hselectors.readable tail
    cases kind with
    | select => exact hhead
    | plural type offset =>
        by_cases hoffset : offset = 0
        · simpa only [layoutOffset, if_pos hoffset, List.nil_append] using hhead
        · simp only [layoutOffset, if_neg hoffset]
          rfl
  have hoffset := readOffset_layout apart layouts (behindComma.rest_skipSpace hrest hbegin) hsafe
    hselectors hshown
  have hread : Recovers (readSelectorArgument inner o s kind.pluralType? name c.position d)
      (Element.seen eraseElements)
      ((Element.selector kind name branches location).seen eraseElements) tail
      (True ∧ layouts.Neat) :=
    readSelectorArgument_of_parts c.position hcomma hoffset fun d hd =>
      readAllBranches_of_readBranches hselectors (hbranches d hd)
  rwa [funext Element.seen_eraseElements, true_and] at hread

end Steps

/-! ## Elements -/

section Texts

variable {o : ParseOptions} {level : Nat} {s : Scope} {e : Element} {es : List Element}
  {tail : List Char}

/-- Every element that may follow a literal ends it, however it is laid out. -/
theorem Layout.endsLiteral_text (layout : Layout e) (hlegible : e.Legible o)
    (hsign : ∀ location, e = .pound location → s.plural = true)
    (hself : ∀ text location, e = .literal text location →
      o.ignoreTag = false ∧ isSelfClosingTag text.toList = true) (tail : List Char) :
    EndsLiteral o s (layout.text s.plural ++ tail) := by
  cases layout with
  | @literal text location =>
      have hends := endsLiteral_renderElement hlegible hsign hself tail
      rwa [renderElement] at hends
  | argument | number | dateTime | selector => exact rfl
  | @pound location => exact hsign location rfl
  | tag children =>
      obtain ⟨htags, hname⟩ := hlegible
      rw [Layout.text, List.cons_append, List.append_assoc]
      exact endsLiteral_tag s htags hname _

/-- In a laid-out text every literal is over at its end. -/
theorem Layouts.isOver (layouts : Layouts es) (happart : (e :: es).IsChain (MayMeet o))
    (h : ElementsWellFormed o level s.plural es) (htail : Closes o s tail) :
    e.IsOver o s (layouts.text s.plural ++ tail) := by
  apply isOver_of_isChain happart
  · rintro rfl
    cases layouts
    exact htail.endsLiteral
  · rintro next others rfl hself
    cases layouts with
    | cons first rest =>
        rw [Layouts.text, List.append_assoc]
        refine first.endsLiteral_text h.1.legible ?_ hself _
        rintro location rfl
        exact h.1

theorem Layout.text_ne_nil {inPlural : Bool} (layout : Layout e)
    (h : e.WellFormed o level inPlural) : layout.text inPlural ≠ [] := by
  cases layout with
  | literal =>
      have hne := renderElement_ne_nil h
      rwa [renderElement] at hne
  | _ => simp [Layout.text, HeadLayout.text]

theorem Layouts.length_le_text {inPlural : Bool} :
    ∀ {es : List Element} (layouts : Layouts es), ElementsWellFormed o level inPlural es →
      es.length ≤ (layouts.text inPlural).length
  | _, .nil, _ => Nat.zero_le _
  | _, .cons first rest, h => by
      have hpos := List.length_pos_iff.mpr (first.text_ne_nil h.1)
      have hle := rest.length_le_text h.2
      rw [Layouts.text, List.length_append, List.length_cons]
      omega

/-- The text of a scope is given back if its elements are, one after the other. -/
theorem Layouts.recovers_readMessage {budget : Nat} {c : Cursor} (layouts : Layouts es)
    (hwf : ElementsWellFormed o level s.plural es)
    (h : ∀ (bound : Nat) (c : Cursor), es.length ≤ bound →
      c.rest = layouts.text s.plural ++ tail →
      Recovers (readElements (readMessage o budget) o s bound c) eraseElements (eraseElements es)
        tail layouts.Neat)
    (hc : c.rest = layouts.text s.plural ++ tail) :
    Recovers (readMessage o (budget + 1) s c) eraseElements (eraseElements es) tail
      layouts.Neat := by
  have hle := layouts.length_le_text hwf
  exact h c.rest.length c (by rw [hc, List.length_append]; omega) hc

end Texts

mutual

theorem Layout.recovers {o : ParseOptions} {level : Nat} {s : Scope} :
    ∀ {e : Element} (layout : Layout e) {tail : List Char} {c : Cursor},
      e.WellFormed o level s.plural → e.Reprintable → e.IsOver o s tail →
      c.rest = layout.text s.plural ++ tail →
      ElementRecovers (readElement (readMessage o (o.maxNestingDepth - level)) o s c)
        eraseElements e tail layout.Neat
  | _, .literal, _, _, hwf, _, hover, h => readElement_literal _ h hwf hover
  | _, .argument _ _, _, _, hwf, _, _, h => by
      rw [readElement_of_brace _ o s h]
      simp only [Layout.text, List.cons_append, List.append_assoc, List.nil_append] at h
      exact (readArgument_layout h hwf).element
  | _, .number _ _ _, _, _, hwf, hreprintable, _, h => by
      rw [readElement_of_brace _ o s h]
      simp only [Layout.text, List.append_assoc, List.cons_append, List.nil_append] at h
      exact (readArgument_number_layout h hwf.1 hwf.2 hreprintable).element
  | _, .dateTime _ _ _, _, _, hwf, _, _, h => by
      rw [readElement_of_brace _ o s h]
      simp only [Layout.text, List.append_assoc, List.cons_append, List.nil_append] at h
      exact (readArgument_dateTime_layout h hwf.1 hwf.2).element
  | .selector kind _ _ _, .selector _ _ _ _ apart branches, _, _, hwf, hreprintable, _, h => by
      obtain ⟨hname, hsafe, hselectors, hbranches⟩ := hwf
      rw [readElement_of_brace _ o s h]
      simp only [Layout.text, List.append_assoc, List.cons_append, List.nil_append] at h
      refine (readArgument_selector_layout apart branches h hname hsafe hselectors hreprintable.1
        fun d hd => ?_).element
      apply branches.recovers hbranches hreprintable.2 _ hselectors.distinct _ hd
      · exact fun selector hmem => ⟨List.not_mem_nil, hselectors.readable selector hmem⟩
      · have hle := branches.length_le_text kind.isPlural
        rw [hd, List.length_append]
        omega
  | _, .pound, _, c, hwf, _, _, h => by
      have hrest : c.rest = '#' :: _ := h
      refine ⟨fun _ => ⟨.pound (c.bump.since c.position), c.bump, ?_, rfl,
        Cursor.rest_bump_cons hrest⟩, fun _ _ _ _ => trivial⟩
      have hplural : s.plural = true := hwf
      simp [readElement, hrest, hplural]
  | _, .tag children, _, _, hwf, hreprintable, _, h => by
      obtain ⟨htags, hname, hlevel, happart, hchildren⟩ := hwf
      simp only [Layout.text, List.append_assoc, List.cons_append, List.nil_append] at h
      rw [readElement_of_letter _ o s htags h (head?_append_of_isTagName hname _),
        show o.maxNestingDepth - level = o.maxNestingDepth - (level + 1) + 1 by omega]
      refine Recovers.map_some (readTag_of_text h hname fun body hbody => ?_)
      exact children.recovers_readMessage hchildren (fun bound c hbound hc =>
        children.recovers happart hchildren hreprintable (.tag rfl htags _) hbound hc) hbody

theorem Layouts.recovers {o : ParseOptions} {level : Nat} {s : Scope} :
    ∀ {es : List Element} (layouts : Layouts es) {tail : List Char} {bound : Nat} {c : Cursor},
      es.IsChain (MayMeet o) → ElementsWellFormed o level s.plural es → Reprintable es →
      Closes o s tail → es.length ≤ bound → c.rest = layouts.text s.plural ++ tail →
      Recovers (readElements (readMessage o (o.maxNestingDepth - level)) o s bound c)
        eraseElements (eraseElements es) tail layouts.Neat
  | _, .nil, tail, bound, c, _, _, _, htail, _, h => by
      have hrest : c.rest = tail := h
      exact ⟨fun _ => ⟨[], c, htail.readElements bound hrest, rfl, hrest⟩,
        fun _ _ _ _ => trivial⟩
  | _, .cons first rest, _, bound + 1, _, happart, hwf, hreprintable, htail, hbound, h => by
      rw [Layouts.text, List.append_assoc] at h
      have hover := rest.isOver happart hwf.2 htail
      exact (first.recovers hwf.1 hreprintable.1 hover h).cons fun d hd =>
        rest.recovers happart.tail hwf.2 hreprintable.2 htail (by simpa using hbound) hd

theorem BranchLayouts.recovers {o : ParseOptions} {level : Nat} {s : Scope} {plural : Bool} :
    ∀ {branches : List (Branch Element)} (layouts : BranchLayouts branches) {seen : List String}
      {bound : Nat} {tail : List Char} {c : Cursor},
      BranchesWellFormed o (level + 1) plural branches → BranchesReprintable branches →
      (∀ selector ∈ branches.map Branch.selector,
        selector ∉ seen ∧ isSelectorText plural selector.toList = true) →
      (branches.map Branch.selector).Nodup → branches.length ≤ bound →
      c.rest = layouts.text plural ++ '}' :: tail →
      Recovers (readBranches (readMessage o (o.maxNestingDepth - level)) s plural bound seen c)
        (seenBranches eraseElements) (seenBranches eraseElements branches) ('}' :: tail)
        layouts.Neat
  | _, .nil, seen, bound, tail, c, _, _, _, _, _, h => by
      have hrest : c.rest = '}' :: tail := h
      refine ⟨fun _ => ⟨[], c, ?_, rfl, hrest⟩, fun _ _ _ _ => trivial⟩
      exact readBranches_of_none bound seen (readSelector_of_brace hrest)
  | _, .cons _ _ value rest, _, bound + 1, tail, _, hwf, hreprintable, hselectors, hdistinct,
      hbound, h => by
      obtain ⟨⟨hlevel, happart, hvalue⟩, hbranches⟩ := hwf
      obtain ⟨hfresh, hselector⟩ := hselectors _ List.mem_cons_self
      have hothers := forall_selectors_of_cons hselectors hdistinct
      simp only [BranchLayouts.text, List.append_assoc, List.cons_append] at h
      apply readBranches_cons_layout h hselector hfresh
        (rest.head?_text (fun other hother => (hothers other hother).2) tail)
      · intro body hbody
        rw [show o.maxNestingDepth - level = o.maxNestingDepth - (level + 1) + 1 by omega]
        exact value.recovers_readMessage hvalue (fun bound c hbound hc =>
          value.recovers happart hvalue hreprintable.1 (.branch rfl _) hbound hc) hbody
      · intro d hd
        exact rest.recovers hbranches hreprintable.2 hothers hdistinct.tail
          (by simpa using hbound) hd

end

/-! ## Whole messages -/

/-- A canonical tree is read from a layout of it exactly if the layout is neat. -/
theorem Layouts.parse_text {o : ParseOptions} {elements : List Element}
    (h : Canonical o 0 false elements) (layouts : Layouts elements) :
    (∃ again, parse (String.ofList (layouts.text false)) o = .ok again ∧
        eraseElements again = eraseElements elements) ↔ layouts.Neat := by
  obtain ⟨⟨-, happart, hwf⟩, hreprintable⟩ := h
  have htext : Recovers
      (readMessage o (o.maxNestingDepth - 0 + 1) .top (.start (layouts.text false)))
      eraseElements (eraseElements elements) [] layouts.Neat :=
    layouts.recovers_readMessage hwf (fun bound c hbound hc =>
      layouts.recovers happart hwf hreprintable .message hbound hc)
      (by simp [Cursor.start, Scope.top])
  have hread : Recovers (readAll o (layouts.text false)) eraseElements (eraseElements elements) []
      layouts.Neat := htext
  constructor
  · rintro ⟨again, hparse, hsame⟩
    obtain ⟨d, hok⟩ := readAll_of_parse hparse
    rw [String.toList_ofList] at hok
    exact hread.faithful again d hok hsame
  · intro hneat
    obtain ⟨again, d, hok, hsame, -⟩ := hread.complete hneat
    exact ⟨again, by rw [parse, String.toList_ofList, hok], hsame⟩

/-- White space between the parts of the arguments of a canonical tree is
insignificant, up to locations, exactly if no directional mark is taken for a part
of a word or a style. -/
theorem layout_insignificant_iff_neat {o : ParseOptions} {elements : List Element}
    (h : Canonical o 0 false elements) (layouts : Layouts elements) :
    ∃ printed, parse (print elements) o = .ok printed ∧
      ((∃ again, parse (String.ofList (layouts.text false)) o = .ok again ∧
          eraseElements again = eraseElements printed) ↔ layouts.Neat) := by
  obtain ⟨printed, hprinted, hsame⟩ := h.wellFormed.parse_print.mpr h.reprintable
  refine ⟨printed, hprinted, ?_⟩
  rw [hsame]
  exact layouts.parse_text h

/-- A plural with a number in its branch, laid out with marks in front of the name,
around the value of the offset and behind a skeleton. -/
theorem layout_insignificant_nested :
    ∃ again,
      parse ("\x7b\u200en , plural\u2028,\n offset:\u200f1\u200e one " ++
        "\x7b\x7bm,number\t,::percent\u200e\x7d\x7d \x7d") {} = .ok again ∧
      eraseElements again = [.selector (.plural .cardinal 1) "n"
        [⟨"one", [.number "m" (some (.skeleton ⟨[⟨"percent", []⟩], .blank, none⟩)) .blank],
          .blank⟩] .blank] := by
  have hparse : parse "{n, plural, offset:1 one{{m, number, ::percent}}}" {} =
      .ok [.selector (.plural .cardinal 1) "n"
        [⟨"one", [.number "m" (some (.skeleton ⟨[⟨"percent", []⟩], .inLine 37 46, none⟩))
          (.inLine 25 47)], .inLine 24 48⟩] (.inLine 0 49)] := rfl
  have hcanonical := Canonical.mk (wellFormedAt_of_parse hparse)
    ⟨⟨rfl, ⟨fun k hk => by cases hk; rfl, trivial⟩, trivial⟩, trivial⟩
  obtain ⟨printed, hprinted, hiff⟩ :=
    layout_insignificant_iff_neat hcanonical
      (.cons (.selector ⟨⟨['\u200e'], rfl⟩, ⟨[' '], rfl⟩, ⟨[' '], rfl⟩, ⟨['\u2028'], rfl⟩⟩
        ⟨['\n', ' '], rfl⟩ ⟨['\u200f'], rfl⟩ ⟨['\u200e', ' '], rfl⟩ (by simp)
        (.cons ⟨[' '], rfl⟩ ⟨[' '], rfl⟩
          (.cons (.number ⟨⟨[], rfl⟩, ⟨[], rfl⟩, ⟨[], rfl⟩, ⟨['\t'], rfl⟩⟩ ⟨[], rfl⟩
            ⟨['\u200e'], rfl⟩) .nil) .nil)) .nil)
  cases hprinted.symm.trans hparse
  apply hiff.mpr
  refine ⟨⟨⟨rfl, rfl⟩, ⟨fun _ => rfl, ⟨⟨⟨rfl, rfl⟩, ?_⟩, trivial⟩⟩, trivial⟩, trivial⟩
  rintro name ⟨⟩

/-- A mark behind a name becomes a part of it. -/
theorem layout_significant_behind_name :
    ¬ ∀ (o : ParseOptions) (elements : List Element) (layouts : Layouts elements),
      Canonical o 0 false elements →
      ∃ again printed, parse (String.ofList (layouts.text false)) o = .ok again ∧
        parse (print elements) o = .ok printed ∧
        eraseElements again = eraseElements printed := by
  intro h
  have hcanonical : Canonical {} 0 false [.argument "n" .blank] :=
    ⟨⟨by decide, .singleton _, ⟨rfl, trivial⟩⟩, ⟨trivial, trivial⟩⟩
  obtain ⟨again, printed, hagain, hprinted, hsame⟩ :=
    h {} _ (.cons (.argument ⟨[], rfl⟩ ⟨['\u200e'], rfl⟩) .nil) hcanonical
  have hmarked : parse "\x7bn\u200e\x7d" {} = .ok [.argument "n\u200e" (.inLine 0 4)] := rfl
  have hplain : parse "{n}" {} = .ok [.argument "n" (.inLine 0 3)] := rfl
  cases hmarked.symm.trans hagain
  cases hplain.symm.trans hprinted
  simp only [eraseElements, Element.erase, List.cons.injEq, Element.argument.injEq, and_true]
    at hsame
  exact absurd hsame (by decide)

end MessagePattern
