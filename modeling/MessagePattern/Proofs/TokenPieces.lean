/-
# The pieces of a number skeleton

A piece of a text is a part without white space that cannot be made longer.  `IsPiece`
says so of a part by what stands next to it, with no regard to how a text is cut, and
the pieces that reading finds are shown to be these parts, in their order.

Together with the round trip of tokens this says when reading fails and when what is
written reads back: tokens read back exactly if each can be told apart, and a text has
no tokens exactly if it is white space or some piece of it has an empty option.
-/

import MessagePattern.Proofs.LayeredSettings

namespace MessagePattern

namespace NumberSkeleton

/-! ## Pieces -/

/-- `piece` stands in `text` between `before` and `behind`, holds no white space and can be
made longer on neither side. -/
structure IsPiece (text before piece behind : List Char) : Prop where
  text_eq : text = before ++ (piece ++ behind)
  nonempty : piece ≠ []
  solid : ∀ c ∈ piece, isPatternSpace c = false
  left : ∀ c ∈ before.getLast?, isPatternSpace c = true
  right : ∀ c ∈ behind.head?, isPatternSpace c = true

variable {text before piece behind : List Char}

theorem pieces_eq_singleton (hne : piece ≠ []) (hsolid : ∀ c ∈ piece, isPatternSpace c = false) :
    pieces piece = [piece] := by
  rw [pieces, List.splitOnP_eq_singleton hsolid]
  simp [hne]

/-- A text that ends in white space has the pieces of the text in front of it. -/
theorem pieces_append_of_left (hleft : ∀ c ∈ before.getLast?, isPatternSpace c = true)
    (y : List Char) : pieces (before ++ y) = pieces before ++ pieces y := by
  rcases List.eq_nil_or_concat before with rfl | ⟨x, c, rfl⟩
  · rfl
  · have hc : isPatternSpace c = true := hleft c (by simp)
    have hnil : pieces (x ++ [c]) = pieces x := by
      rw [pieces_append_cons x [] hc]
      exact List.append_nil _
    rw [List.concat_eq_append, hnil, List.append_assoc, List.singleton_append,
      pieces_append_cons x y hc]

theorem pieces_append_of_right (hright : ∀ c ∈ behind.head?, isPatternSpace c = true)
    (x : List Char) : pieces (x ++ behind) = pieces x ++ pieces behind := by
  cases behind with
  | nil => simp [show pieces [] = [] from rfl]
  | cons c y =>
      have hc : isPatternSpace c = true := hright c rfl
      rw [pieces_append_cons x y hc]
      exact congrArg _ (pieces_append_of_space (w := [c]) (by simpa using hc) y).symm

theorem IsPiece.pieces_eq (h : IsPiece text before piece behind) :
    pieces text = pieces before ++ piece :: pieces behind := by
  rw [h.text_eq, pieces_append_of_left h.left, pieces_append_of_right h.right,
    pieces_eq_singleton h.nonempty h.solid]
  rfl

/-- Behind a piece there is no other one at once. -/
theorem IsPiece.ne_nil_of_behind {before' piece' behind' : List Char}
    (h : IsPiece text before piece behind) (h' : IsPiece behind before' piece' behind') :
    before' ≠ [] := by
  rintro rfl
  obtain ⟨c, rest, rfl⟩ := List.exists_cons_of_ne_nil h'.nonempty
  have hspace := h.right c (by simp [h'.text_eq])
  rw [h'.solid c List.mem_cons_self] at hspace
  cases hspace

/-- The pieces of what stands behind a piece are pieces of the text. -/
theorem IsPiece.of_behind {before' piece' behind' : List Char}
    (h : IsPiece text before piece behind) (h' : IsPiece behind before' piece' behind') :
    IsPiece text (before ++ (piece ++ before')) piece' behind' where
  text_eq := by rw [h.text_eq, h'.text_eq]; simp
  nonempty := h'.nonempty
  solid := h'.solid
  left := by
    have hne := h.ne_nil_of_behind h'
    rw [List.getLast?_append_of_ne_nil _ (by simp [hne]), List.getLast?_append_of_ne_nil _ hne]
    exact h'.left
  right := h'.right

/-- A text that is not white space has a first piece. -/
theorem exists_first_piece (h : pieces text ≠ []) :
    ∃ before piece behind, IsPiece text before piece behind ∧ pieces before = [] := by
  have hspace : ∀ c ∈ text.takeWhile isPatternSpace, isPatternSpace c = true :=
    List.all_eq_true.mp List.all_takeWhile
  have hbefore : pieces (text.takeWhile isPatternSpace) = [] := by
    have hnil := pieces_append_of_space hspace []
    rw [List.append_nil] at hnil
    exact hnil
  have hsplit : text = text.takeWhile isPatternSpace ++ text.dropWhile isPatternSpace :=
    List.takeWhile_append_dropWhile.symm
  cases hrest : text.dropWhile isPatternSpace with
  | nil =>
      rw [hrest, List.append_nil] at hsplit
      rw [hsplit] at h
      exact absurd hbefore h
  | cons c rest =>
      have hc : isPatternSpace c = false := by
        simpa [hrest] using List.head?_dropWhile_not isPatternSpace text
      refine ⟨text.takeWhile isPatternSpace, (c :: rest).takeWhile (!isPatternSpace ·),
        (c :: rest).dropWhile (!isPatternSpace ·), ?_, hbefore⟩
      constructor
      · rw [List.takeWhile_append_dropWhile, ← hrest]
        exact hsplit
      · simp [hc]
      · intro d hd
        simpa using List.all_eq_true.mp List.all_takeWhile d hd
      · intro d hd
        exact hspace d (List.mem_of_getLast? hd)
      · intro d hd
        have hstop := List.head?_dropWhile_not (!isPatternSpace ·) (c :: rest)
        rw [hd] at hstop
        simpa using hstop

/-- Whatever pieces are found are the pieces of the text, in their order. -/
theorem exists_isPiece {text piece : List Char} {front back : List (List Char)}
    (h : pieces text = front ++ piece :: back) :
    ∃ before behind, IsPiece text before piece behind ∧ pieces before = front := by
  have hne : pieces text ≠ [] := by simp [h]
  obtain ⟨before, first, behind, hfirst, hbefore⟩ := exists_first_piece hne
  rw [hfirst.pieces_eq, hbefore, List.nil_append] at h
  cases front with
  | nil =>
      cases h
      exact ⟨before, behind, hfirst, hbefore⟩
  | cons _ front =>
      obtain ⟨rfl, hbehind⟩ := List.cons.inj h
      -- The piece is found behind the first one, in a shorter text.
      have hshorter : behind.length < text.length := by
        have hpos := List.length_pos_iff.mpr hfirst.nonempty
        simp only [hfirst.text_eq, List.length_append]
        omega
      obtain ⟨before', behind', hpiece, hfront⟩ := exists_isPiece hbehind
      refine ⟨_, behind', hfirst.of_behind hpiece, ?_⟩
      have hright : ∀ c ∈ before'.head?, isPatternSpace c = true := by
        have hhead : behind.head? = before'.head? := by
          rw [hpiece.text_eq, List.head?_append_of_ne_nil _ (hfirst.ne_nil_of_behind hpiece)]
        exact hhead ▸ hfirst.right
      rw [pieces_append_of_left hfirst.left, pieces_append_of_right hright, hbefore, hfront,
        pieces_eq_singleton hfirst.nonempty hfirst.solid]
      rfl
termination_by text.length

/-- Between an earlier piece and a piece there is something, namely white space. -/
theorem IsPiece.ne_nil_of_before {b p a : List Char} (h : IsPiece text before piece behind)
    (h' : IsPiece before b p a) : a ≠ [] := by
  rintro rfl
  have hlast : before.getLast? = p.getLast? := by
    rw [h'.text_eq, List.append_nil, List.getLast?_append_of_ne_nil _ h'.nonempty]
  have hspace := h.left (p.getLast h'.nonempty)
    (hlast.trans (List.getLast?_eq_some_getLast h'.nonempty))
  rw [h'.solid _ (List.getLast_mem h'.nonempty)] at hspace
  cases hspace

/-- The pieces of the text in front of a piece are the pieces that begin earlier. -/
theorem IsPiece.mem_pieces_before_iff {p : List Char} (h : IsPiece text before piece behind) :
    p ∈ pieces before ↔ ∃ b a, IsPiece text b p a ∧ b.length < before.length := by
  constructor
  · intro hmem
    obtain ⟨front, back, hfront⟩ := List.append_of_mem hmem
    obtain ⟨b, a, hp, -⟩ := exists_isPiece hfront
    refine ⟨b, a ++ (piece ++ behind), ⟨?_, hp.nonempty, hp.solid, hp.left, ?_⟩, ?_⟩
    · rw [h.text_eq, hp.text_eq]
      simp
    · rw [List.head?_append_of_ne_nil _ (h.ne_nil_of_before hp)]
      exact hp.right
    · have hpos := List.length_pos_iff.mpr hp.nonempty
      simp only [hp.text_eq, List.length_append]
      omega
  · rintro ⟨b, a, hp, hlt⟩
    -- Cut at the earlier piece, the text in front of the later one goes on with it.
    have hcuts : b ++ (p ++ a) = before ++ (piece ++ behind) := hp.text_eq.symm.trans h.text_eq
    obtain ⟨m, hbefore, hrest⟩ : ∃ m, before = b ++ m ∧ p ++ a = m ++ (piece ++ behind) := by
      rcases List.append_eq_append_iff.mp hcuts with hm | ⟨m, rfl, -⟩
      · exact hm
      · rw [List.length_append] at hlt
        omega
    have hm : m ≠ [] := by
      rintro rfl
      simp [hbefore] at hlt
    rcases List.append_eq_append_iff.mp hrest with ⟨a', hpa, ha⟩ | ⟨m', hpm, -⟩
    · have hearlier : IsPiece before b p a' := by
        refine ⟨by rw [hbefore, hpa], hp.nonempty, hp.solid, hp.left, fun c hc => hp.right c ?_⟩
        rw [ha, List.head?_append, hc]
        rfl
      rw [hearlier.pieces_eq]
      exact List.mem_append_right _ List.mem_cons_self
    · -- The later piece would begin inside the earlier one, behind a scalar that is no space.
      have hspace := h.left (m.getLast hm) (by
        rw [hbefore, List.getLast?_append_of_ne_nil _ hm]
        exact List.getLast?_eq_some_getLast hm)
      have hsolid := hp.solid (m.getLast hm) (by simp [hpm])
      rw [hsolid] at hspace
      cases hspace

/-! ## Empty options -/

/-- A piece has an empty option if it ends in a slash or if two slashes follow each other. -/
def HasEmptyOption (piece : List Char) : Prop :=
  piece.getLast? = some '/' ∨ ['/', '/'] <:+: piece

theorem hasEmptyOption_cons {c : Char} :
    HasEmptyOption (c :: piece) ↔
      c = '/' ∧ (piece = [] ∨ piece.head? = some '/') ∨ HasEmptyOption piece := by
  cases piece with
  | nil => simp [HasEmptyOption, List.infix_cons_iff]
  | cons d piece =>
      simp only [HasEmptyOption, List.getLast?_cons_cons, List.infix_cons_iff (a := c),
        List.cons_prefix_cons, List.nil_prefix, and_true, List.head?_cons, Option.some.injEq,
        reduceCtorEq, false_or]
      grind

theorem splitOn_cons (c : Char) (piece : List Char) :
    (c :: piece).splitOn '/' =
      if c = '/' then [] :: piece.splitOn '/' else (piece.splitOn '/').modifyHead (c :: ·) := by
  simp [List.splitOn_eq_splitOnP, List.splitOnP_cons_eq_if_modifyHead]

theorem nil_mem_splitOn_iff :
    [] ∈ piece.splitOn '/' ↔
      (piece = [] ∨ piece.head? = some '/') ∨ [] ∈ (piece.splitOn '/').tail := by
  cases piece with
  | nil => simp
  | cons c piece =>
      rw [splitOn_cons]
      split_ifs with hc
      · simp [hc]
      · cases piece.splitOn '/' <;> simp [hc]

/-- The parts behind the first slash are the options. -/
theorem nil_mem_tail_splitOn_iff : [] ∈ (piece.splitOn '/').tail ↔ HasEmptyOption piece := by
  induction piece with
  | nil => simp [HasEmptyOption]
  | cons c piece ih =>
      rw [hasEmptyOption_cons, ← ih, splitOn_cons]
      split_ifs with hc
      · simp [hc, nil_mem_splitOn_iff]
      · simp [hc]

theorem tokenOfPiece_eq_error_iff {e : SkeletonError} :
    tokenOfPiece piece = .error e ↔
      HasEmptyOption piece ∧ e = .emptyOption (String.ofList piece) := by
  have hempty : ((piece.splitOn '/').drop 1).any List.isEmpty = true ↔ HasEmptyOption piece := by
    rw [← nil_mem_tail_splitOn_iff, List.any_eq_true, List.drop_one]
    simp
  unfold tokenOfPiece
  simp only
  split_ifs with h
  · simp [hempty.mp h, eq_comm]
  · simp [mt hempty.mpr h]

theorem exists_tokenOfPiece_iff : (∃ t, tokenOfPiece piece = .ok t) ↔ ¬ HasEmptyOption piece := by
  rw [exists_eq_ok_iff]
  simp [tokenOfPiece_eq_error_iff]

/-! ## Reading -/

theorem pieces_eq_nil_iff : pieces text = [] ↔ ∀ c ∈ text, isPatternSpace c = true := by
  constructor
  · intro h
    have hinked := flatten_pieces text
    rw [h] at hinked
    simpa [inked] using hinked.symm
  · intro h
    have hnil := pieces_append_of_space h []
    rwa [List.append_nil] at hnil

/-- Reading the pieces one after the other fails at the first one with an empty option. -/
theorem mapM_tokenOfPiece_eq_error_iff {e : SkeletonError} :
    (pieces text).mapM tokenOfPiece = .error e ↔ ∃ before piece behind,
      IsPiece text before piece behind ∧ HasEmptyOption piece ∧
      (∀ b p a, IsPiece text b p a → b.length < before.length → ¬ HasEmptyOption p) ∧
      e = .emptyOption (String.ofList piece) := by
  rw [mapM_eq_error_iff]
  constructor
  · rintro ⟨front, piece, back, hpieces, hfront, hpiece⟩
    obtain ⟨before, behind, hp, rfl⟩ := exists_isPiece hpieces
    obtain ⟨hempty, rfl⟩ := tokenOfPiece_eq_error_iff.mp hpiece
    refine ⟨before, piece, behind, hp, hempty, fun b p a hearlier hlt => ?_, rfl⟩
    exact exists_tokenOfPiece_iff.mp
      (hfront p (hp.mem_pieces_before_iff.mpr ⟨b, a, hearlier, hlt⟩))
  · rintro ⟨before, piece, behind, hp, hempty, hfirst, rfl⟩
    refine ⟨pieces before, piece, pieces behind, hp.pieces_eq, fun p hmem => ?_,
      tokenOfPiece_eq_error_iff.mpr ⟨hempty, rfl⟩⟩
    obtain ⟨b, a, hearlier, hlt⟩ := hp.mem_pieces_before_iff.mp hmem
    exact exists_tokenOfPiece_iff.mpr (hfirst b p a hearlier hlt)

theorem tokenize_eq_error_iff {e : SkeletonError} :
    tokenize text = .error e ↔ (e = .empty ∧ pieces text = []) ∨
      (pieces text).mapM tokenOfPiece = .error e := by
  rw [tokenize, bind_eq_error_iff, or_comm]
  refine or_congr ?_ Iff.rfl
  constructor
  · rintro ⟨ts, hread, hlast⟩
    split at hlast
    · next hempty =>
        cases hlast
        rw [List.isEmpty_iff.mp hempty, mapM_eq_ok_iff, List.forall₂_nil_right_iff] at hread
        exact ⟨rfl, hread⟩
    · cases hlast
  · rintro ⟨rfl, hnil⟩
    exact ⟨[], by rw [hnil]; rfl, rfl⟩

/-- What is written reads back exactly if there is a token and each can be told apart, and
so it is with whatever is read.  Reading fails exactly if there is nothing but white space,
or for the first piece with an empty option. -/
theorem tokenize_exact :
    (∀ ts : List NumberToken,
      tokenize (renderTokens ts) = .ok ts ↔ ts ≠ [] ∧ ∀ t ∈ ts, t.IsDistinct) ∧
    (∀ text ts, tokenize text = .ok ts → ts ≠ [] ∧ ∀ t ∈ ts, t.IsDistinct) ∧
    ∀ text e, tokenize text = .error e ↔
      (e = .empty ∧ ∀ c ∈ text, isPatternSpace c = true) ∨
      ∃ before piece behind, IsPiece text before piece behind ∧ HasEmptyOption piece ∧
        (∀ b p a, IsPiece text b p a → b.length < before.length → ¬ HasEmptyOption p) ∧
        e = .emptyOption (String.ofList piece) := by
  have hread (text : List Char) (ts : List NumberToken) (h : tokenize text = .ok ts) :
      ts ≠ [] ∧ ∀ t ∈ ts, t.IsDistinct :=
    let ⟨hne, hdistinct, _⟩ := tokenize_eq_ok h
    ⟨hne, hdistinct⟩
  refine ⟨fun ts => ⟨hread _ ts, fun ⟨hne, h⟩ => tokenize_renderTokens hne h⟩, hread, ?_⟩
  intro text e
  rw [tokenize_eq_error_iff, pieces_eq_nil_iff, mapM_tokenOfPiece_eq_error_iff]

/-- A token without a stem is read, and can be told apart by its option. -/
theorem tokenize_exact_empty_stem :
    tokenize "/b\t a".toList = .ok [⟨"", ["b"]⟩, ⟨"a", []⟩] ∧
    [⟨"", ["b"]⟩, ⟨"a", []⟩] ≠ ([] : List NumberToken) ∧
    ∀ t ∈ [⟨"", ["b"]⟩, ⟨"a", []⟩], NumberToken.IsDistinct t :=
  ⟨by rfl, tokenize_exact.2.1 "/b\t a".toList [⟨"", ["b"]⟩, ⟨"a", []⟩] (by rfl)⟩

end NumberSkeleton

end MessagePattern
