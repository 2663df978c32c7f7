/-
# Number tokens, written and read

Tokens that are written one after the other read back as the same tokens, and
whatever tokens are read, writing them loses nothing but white space between
them.  The second fact is stated as an equality of what remains when pattern
white space is taken out, which is all that a style is later asked about.
-/

import MessagePattern.Proofs.Outcome
import MessagePattern.Proofs.Canonical

namespace MessagePattern

namespace NumberSkeleton

/-- What is left of a text when pattern white space is taken out. -/
def inked (text : List Char) : List Char := text.filter fun c => !isPatternSpace c

@[simp] theorem inked_append (first second : List Char) :
    inked (first ++ second) = inked first ++ inked second := by
  simp [inked]

theorem inked_eq_self {text : List Char} (h : ∀ c ∈ text, isPatternSpace c = false) :
    inked text = text :=
  List.filter_eq_self.mpr fun c hc => by simp [h c hc]

theorem renderToken_eq_intercalate (t : NumberToken) :
    renderToken t = ['/'].intercalate (t.stem.toList :: t.options.map String.toList) := by
  obtain ⟨stem, options⟩ := t
  simp only [renderToken]
  generalize stem.toList = first
  induction options generalizing first with
  | nil => simp
  | cons option options ih =>
      rw [List.flatMap_cons, List.map_cons, List.intercalate_cons_of_ne_nil (by simp),
        ← ih option.toList]
      simp

/-! ## One token -/

theorem not_mem_of_isTokenPart {text : List Char} (h : isTokenPart text) : '/' ∉ text := by
  intro hmem
  have hslash := List.all_eq_true.mp h '/' hmem
  simp at hslash

theorem isPatternSpace_of_isTokenPart {text : List Char} (h : isTokenPart text) :
    ∀ c ∈ text, isPatternSpace c = false := by
  intro c hc
  have hpart := List.all_eq_true.mp h c hc
  simp only [Bool.and_eq_true, Bool.not_eq_true'] at hpart
  exact hpart.1

/-- A token that is written reads back as itself. -/
theorem tokenOfPiece_renderToken {t : NumberToken} (h : t.IsDistinct) :
    tokenOfPiece (renderToken t) = .ok t := by
  have hparts : (renderToken t).splitOn '/' = t.stem.toList :: t.options.map String.toList := by
    rw [renderToken_eq_intercalate]
    refine List.splitOn_intercalate '/' ?_ (by simp)
    intro part hpart
    rcases List.mem_cons.mp hpart with rfl | hpart
    · exact not_mem_of_isTokenPart h.stem
    · obtain ⟨option, hoption, rfl⟩ := List.mem_map.mp hpart
      exact not_mem_of_isTokenPart (h.options option hoption).2
  have hoptions : (t.options.map String.toList).any List.isEmpty = false := by
    rw [List.any_eq_false]
    intro part hpart
    obtain ⟨option, hoption, rfl⟩ := List.mem_map.mp hpart
    simpa using (h.options option hoption).1
  simp [tokenOfPiece, hparts, hoptions, Function.comp_def]

/-- Reading a piece splits it and keeps all of it. -/
theorem renderToken_of_tokenOfPiece {piece : List Char} {t : NumberToken}
    (h : tokenOfPiece piece = .ok t) : renderToken t = piece := by
  unfold tokenOfPiece at h
  simp only at h
  split at h
  · cases h
  · cases h
    rw [renderToken_eq_intercalate]
    have hcons : piece.splitOn '/' =
        (piece.splitOn '/').headD [] :: (piece.splitOn '/').drop 1 := by
      cases hsplit : piece.splitOn '/' with
      | nil => exact absurd hsplit (List.splitOn_ne_nil '/' piece)
      | cons head tail => rfl
    calc
      _ = ['/'].intercalate ((piece.splitOn '/').headD [] :: (piece.splitOn '/').drop 1) := by
        simp [Function.comp_def]
      _ = ['/'].intercalate (piece.splitOn '/') := by rw [← hcons]
      _ = piece := List.intercalate_splitOn '/'

/-- The parts of a text between separators hold no separator. -/
theorem forall_mem_splitOnP {p : Char → Bool} (text : List Char) :
    ∀ part ∈ text.splitOnP p, ∀ c ∈ part, p c = false ∧ c ∈ text := by
  induction text with
  | nil => simp
  | cons c text ih =>
      rw [List.splitOnP_cons_eq_if_modifyHead]
      split
      · intro part hpart d hd
        rcases List.mem_cons.mp hpart with rfl | hpart
        · cases hd
        · exact ⟨(ih part hpart d hd).1, List.mem_cons_of_mem c (ih part hpart d hd).2⟩
      · next hc =>
          cases hsplit : text.splitOnP p with
          | nil => exact absurd hsplit (List.splitOnP_ne_nil p text)
          | cons head tail =>
              rw [hsplit] at ih
              intro part hpart d hd
              rcases List.mem_cons.mp hpart with rfl | hpart
              · rcases List.mem_cons.mp hd with rfl | hd
                · exact ⟨by simpa using hc, List.mem_cons_self⟩
                · have hboth := ih head List.mem_cons_self d hd
                  exact ⟨hboth.1, List.mem_cons_of_mem c hboth.2⟩
              · have hboth := ih part (List.mem_cons_of_mem head hpart) d hd
                exact ⟨hboth.1, List.mem_cons_of_mem c hboth.2⟩

theorem isDistinct_of_tokenOfPiece {piece : List Char} {t : NumberToken} (hne : piece ≠ [])
    (hspace : ∀ c ∈ piece, isPatternSpace c = false) (h : tokenOfPiece piece = .ok t) :
    t.IsDistinct := by
  have hrender := renderToken_of_tokenOfPiece h
  have hpart : ∀ part ∈ piece.splitOn '/', isTokenPart part := by
    intro part hmem
    rw [List.splitOn_eq_splitOnP] at hmem
    refine List.all_eq_true.mpr fun c hc => ?_
    obtain ⟨hslash, hpiece⟩ := forall_mem_splitOnP piece part hmem c hc
    simpa [hspace c hpiece] using hslash
  unfold tokenOfPiece at h
  simp only at h
  split at h
  · cases h
  · next hany =>
      cases h
      refine ⟨?_, ?_, ?_⟩
      · cases hsplit : piece.splitOn '/' with
        | nil => exact absurd hsplit (List.splitOn_ne_nil '/' piece)
        | cons head tail =>
            have hhead := hpart head (by simp [hsplit])
            simpa using hhead
      · intro option hoption
        obtain ⟨part, hmem, rfl⟩ := List.mem_map.mp hoption
        have hpartNe : ¬ part.isEmpty = true := fun hempty =>
          hany (List.any_eq_true.mpr ⟨part, hmem, hempty⟩)
        exact ⟨by simpa using hpartNe, by simpa using hpart part (List.mem_of_mem_drop hmem)⟩
      · by_contra hcontra
        simp only [not_or, not_not] at hcontra
        rw [renderToken, hcontra.1, hcontra.2] at hrender
        exact hne (by simpa using hrender.symm)

/-! ## Lists of tokens -/

theorem renderToken_ne_nil {t : NumberToken} (h : t.IsDistinct) : renderToken t ≠ [] := by
  intro hnil
  have hboth := List.append_eq_nil_iff.mp hnil
  rcases h.nonempty with hstem | hoptions
  · exact hstem (by simpa using hboth.1)
  · obtain ⟨option, hmem⟩ := List.exists_mem_of_ne_nil _ hoptions
    have := List.flatMap_eq_nil_iff.mp hboth.2 option hmem
    simp at this

theorem isPatternSpace_of_mem_renderToken {t : NumberToken} (h : t.IsDistinct) :
    ∀ c ∈ renderToken t, isPatternSpace c = false := by
  intro c hc
  rcases List.mem_append.mp hc with hstem | hoptions
  · exact isPatternSpace_of_isTokenPart h.stem c hstem
  · obtain ⟨option, hmem, hc⟩ := List.mem_flatMap.mp hoptions
    rcases List.mem_cons.mp hc with rfl | hc
    · decide
    · exact isPatternSpace_of_isTokenPart (h.options option hmem).2 c hc

theorem renderTokens_cons_cons (t u : NumberToken) (ts : List NumberToken) :
    renderTokens (t :: u :: ts) = renderToken t ++ ' ' :: renderTokens (u :: ts) := by
  rw [renderTokens, List.map_cons, List.intercalate_cons_of_ne_nil (by simp)]
  simp [renderTokens]

@[simp] theorem renderTokens_singleton (t : NumberToken) :
    renderTokens [t] = renderToken t := by
  simp [renderTokens]

theorem pieces_renderTokens {ts : List NumberToken} (hne : ts ≠ [])
    (h : ∀ t ∈ ts, t.IsDistinct) : pieces (renderTokens ts) = ts.map renderToken := by
  have hsplit : (renderTokens ts).splitOnP isPatternSpace = ts.map renderToken := by
    induction ts with
    | nil => exact absurd rfl hne
    | cons t ts ih =>
        have ht := isPatternSpace_of_mem_renderToken (h t List.mem_cons_self)
        cases ts with
        | nil => rw [renderTokens_singleton, List.splitOnP_eq_singleton ht]; rfl
        | cons u ts =>
            rw [renderTokens_cons_cons,
              List.splitOnP_append_cons_of_forall_mem ht ' ' (by decide),
              ih (by simp) fun v hv => h v (List.mem_cons_of_mem t hv)]
            rfl
  rw [pieces, hsplit, List.filter_eq_self]
  intro piece hpiece
  obtain ⟨t, ht, rfl⟩ := List.mem_map.mp hpiece
  simpa using renderToken_ne_nil (h t ht)

/-- Written tokens read back as the same tokens. -/
theorem tokenize_renderTokens {ts : List NumberToken} (hne : ts ≠ [])
    (h : ∀ t ∈ ts, t.IsDistinct) : tokenize (renderTokens ts) = .ok ts := by
  have htokens : (ts.map renderToken).mapM tokenOfPiece = .ok ts := by
    rw [mapM_eq_ok_iff, List.forall₂_map_left_iff, List.forall₂_same]
    exact fun t ht => tokenOfPiece_renderToken (h t ht)
  have hempty : ts.isEmpty = false := by simpa using hne
  rw [tokenize, pieces_renderTokens hne h, htokens]
  simp [bind, Except.bind, hempty]

theorem inked_flatten_splitOnP (text : List Char) :
    (text.splitOnP isPatternSpace).flatten = inked text := by
  induction text with
  | nil => rfl
  | cons c text ih =>
      rw [List.splitOnP_cons_eq_if_modifyHead]
      split
      · next hc => simp [ih, inked, hc]
      · next hc =>
          cases hsplit : text.splitOnP isPatternSpace with
          | nil => exact absurd hsplit (List.splitOnP_ne_nil _ text)
          | cons head tail =>
              rw [hsplit] at ih
              simp_all [inked]

theorem flatten_pieces (text : List Char) : (pieces text).flatten = inked text := by
  have hflatten (parts : List (List Char)) :
      (parts.filter (!·.isEmpty)).flatten = parts.flatten := by
    induction parts with
    | nil => rfl
    | cons part parts ih => cases part <;> simp [ih]
  rw [pieces, hflatten, inked_flatten_splitOnP]

theorem inked_renderTokens {ts : List NumberToken} (h : ∀ t ∈ ts, t.IsDistinct) :
    inked (renderTokens ts) = (ts.map renderToken).flatten := by
  induction ts with
  | nil => rfl
  | cons t ts ih =>
      have ht := inked_eq_self (isPatternSpace_of_mem_renderToken (h t List.mem_cons_self))
      have hts := ih fun u hu => h u (List.mem_cons_of_mem t hu)
      cases ts with
      | nil => simp [ht]
      | cons u ts =>
          have hspace : inked (' ' :: renderTokens (u :: ts)) = inked (renderTokens (u :: ts)) :=
            List.filter_cons_of_neg (by decide)
          rw [renderTokens_cons_cons, inked_append, ht, hspace, hts]
          rfl

/-- Pieces without white space become tokens that can be told apart and that are
written as the pieces. -/
theorem isDistinct_and_render_of_pieces {pieces : List (List Char)} {ts : List NumberToken}
    (h : List.Forall₂ (fun piece t => tokenOfPiece piece = .ok t) pieces ts)
    (hpieces : ∀ piece ∈ pieces, piece ≠ [] ∧ ∀ c ∈ piece, isPatternSpace c = false) :
    (∀ t ∈ ts, t.IsDistinct) ∧ ts.map renderToken = pieces := by
  induction h with
  | nil => exact ⟨by simp, rfl⟩
  | @cons piece t pieces ts hread _ ih =>
      obtain ⟨hdistinct, hrender⟩ := ih fun p hp => hpieces p (List.mem_cons_of_mem piece hp)
      obtain ⟨hne, hspace⟩ := hpieces piece List.mem_cons_self
      refine ⟨fun u hu => ?_, by rw [List.map_cons, renderToken_of_tokenOfPiece hread, hrender]⟩
      rcases List.mem_cons.mp hu with rfl | hu
      · exact isDistinct_of_tokenOfPiece hne hspace hread
      · exact hdistinct u hu

/-- White space ends a piece. -/
theorem pieces_append_cons (x y : List Char) {c : Char} (hc : isPatternSpace c = true) :
    pieces (x ++ c :: y) = pieces x ++ pieces y := by
  rw [pieces, List.splitOnP_append_cons x y hc, List.filter_append]
  rfl

theorem tokenize_eq_ok_iff {text : List Char} {tokens : List NumberToken} :
    tokenize text = .ok tokens ↔ (pieces text).mapM tokenOfPiece = .ok tokens ∧ tokens ≠ [] := by
  constructor
  · intro h
    obtain ⟨found, hfound, hlast⟩ := bind_eq_ok h
    split at hlast
    · cases hlast
    · next hempty =>
        cases hlast
        exact ⟨hfound, by simpa using hempty⟩
  · rintro ⟨hfound, hne⟩
    rw [tokenize, hfound]
    simp [bind, Except.bind, hne]

/-- What reading tokens guarantees: there is one, each can be told apart, and
together they hold all of the text but its white space. -/
theorem tokenize_eq_ok {text : List Char} {ts : List NumberToken} (h : tokenize text = .ok ts) :
    ts ≠ [] ∧ (∀ t ∈ ts, t.IsDistinct) ∧ inked (renderTokens ts) = inked text := by
  obtain ⟨htokens, hne⟩ := tokenize_eq_ok_iff.mp h
  have hpieces : ∀ piece ∈ pieces text, piece ≠ [] ∧ ∀ c ∈ piece, isPatternSpace c = false := by
    intro piece hpiece
    obtain ⟨hmem, hpieceNe⟩ := List.mem_filter.mp hpiece
    exact ⟨by simpa using hpieceNe, fun c hc => (forall_mem_splitOnP text piece hmem c hc).1⟩
  obtain ⟨hdistinct, hrender⟩ :=
    isDistinct_and_render_of_pieces (mapM_eq_ok_iff.mp htokens) hpieces
  refine ⟨hne, hdistinct, ?_⟩
  rw [inked_renderTokens hdistinct, hrender, flatten_pieces]

end NumberSkeleton

end MessagePattern
