/-
# Texts with literals side by side

Reading never gives two literals in a row, self-closing tags aside, so a text that
has some cannot come back as it is.  It can come back `joined`: with literals that
meet made into one, at every depth.

A text comes back joined exactly if nothing in it is lost and its literals can
stand side by side, which `joins` decides.  The proof goes through a text from one
run of literals to the next: what a run says is known from its pieces, and the
element behind it is given back like any other.
-/

import MessagePattern.Proofs.NestedRecovery
import MessagePattern.Proofs.Pieces

namespace MessagePattern

/-! ## Joining -/

/-- Puts an element in front of others.  A literal is joined to the one it meets. -/
def glue : Element → List Element → List Element
  | .literal first location, .literal second _ :: es => .literal (first ++ second) location :: es
  | e, es => e :: es

mutual

/-- An element with the literals in it joined. -/
def Element.join : Element → Element
  | .selector kind name branches location => .selector kind name (joinBranches branches) location
  | .tag name children location => .tag name (joinElements children) location
  | e => e

/-- Elements with the literals that meet joined. -/
def joinElements : List Element → List Element
  | [] => []
  | e :: es => glue e.join (joinElements es)

/-- Branches with the literals in them joined. -/
def joinBranches : List (Branch Element) → List (Branch Element)
  | [] => []
  | ⟨selector, value, location⟩ :: branches =>
    ⟨selector, joinElements value, location⟩ :: joinBranches branches

end

/-- Elements without their locations and with the literals that meet joined. -/
def joined (es : List Element) : List Element := joinElements (eraseElements es)

theorem joinBranches_eraseBranches (branches : List (Branch Element)) :
    joinBranches (eraseBranches branches) = seenBranches joined branches := by
  induction branches with
  | nil => rfl
  | cons b branches ih => rw [eraseBranches, joinBranches, ih, seenBranches_cons, joined]

theorem joined_literal (text : String) (location : Location) (es : List Element) :
    joined (.literal text location :: es) = glue (.literal text .blank) (joined es) := by
  simp only [joined, eraseElements, Element.erase, joinElements, Element.join]

/-- Elements other than literals are left apart. -/
theorem joined_cons {e : Element} (hother : ∀ text location, e ≠ .literal text location)
    (es : List Element) : joined (e :: es) = e.seen joined :: joined es := by
  have hjoin : e.erase.join = e.seen joined := by
    cases e with
    | selector kind name branches location =>
        simp only [Element.erase, Element.join, Element.seen, joinBranches_eraseBranches]
    | _ => simp only [Element.erase, Element.join, Element.seen, joined]
  rw [joined, eraseElements, joinElements, hjoin]
  cases e with
  | literal text location => exact absurd rfl (hother text location)
  | _ => rfl

theorem seen_ne_literal {view : List Element → List Element} {e : Element}
    (hother : ∀ text location, e ≠ .literal text location) (text : String) (location : Location) :
    e.seen view ≠ .literal text location := by
  cases e with
  | literal text location => exact absurd rfl (hother text location)
  | _ => simp [Element.seen, Element.erase]

theorem glue_ne_of_seen {view : List Element → List Element} {e : Element} {text : String}
    {location : Location} {es es' : List Element}
    (hother : ∀ text location, e ≠ .literal text location) :
    glue (.literal text location) es ≠ e.seen view :: es' := by
  obtain ⟨said, hsaid⟩ :
      ∃ said, (glue (.literal text location) es).head? = some (.literal said location) := by
    cases es with
    | nil => exact ⟨text, rfl⟩
    | cons next es => cases next <;> exact ⟨_, rfl⟩
  intro h
  rw [h, List.head?_cons, Option.some.injEq] at hsaid
  exact seen_ne_literal hother said location hsaid

/-! ## Runs of literals -/

/-- No literal is empty. -/
def Filled (es : List Element) : Prop := ∀ text location, .literal text location ∈ es → text ≠ ""

theorem Filled.tail {e : Element} {es : List Element} (h : Filled (e :: es)) : Filled es :=
  fun text location hmem => h text location (List.mem_cons_of_mem e hmem)

theorem behindLiterals_cases (es : List Element) :
    behindLiterals es = [] ∨ ∃ e others, behindLiterals es = e :: others ∧
      ∀ text location, e ≠ .literal text location := by
  induction es with
  | nil => exact .inl rfl
  | cons e es ih =>
      cases e with
      | literal text location => exact ih
      | _ => exact .inr ⟨_, _, rfl, by simp⟩

theorem behindLiterals_suffix (es : List Element) : behindLiterals es <:+ es := by
  induction es with
  | nil => exact List.suffix_rfl
  | cons e es ih =>
      cases e with
      | literal text location => exact ih.trans (List.suffix_cons _ es)
      | _ => exact List.suffix_rfl

theorem Filled.behindLiterals {es : List Element} (h : Filled es) : Filled (behindLiterals es) :=
  fun text location hmem => h text location ((behindLiterals_suffix es).mem hmem)

theorem leadingText_behindLiterals (es : List Element) : leadingText (behindLiterals es) = [] := by
  induction es with
  | nil => rfl
  | cons e es ih =>
      cases e with
      | literal text location => exact ih
      | _ => rfl

theorem behindLiterals_behindLiterals (es : List Element) :
    behindLiterals (behindLiterals es) = behindLiterals es := by
  induction es with
  | nil => rfl
  | cons e es ih =>
      cases e with
      | literal text location => exact ih
      | _ => rfl

/-- Literals in front of a text say the beginning of it. -/
theorem leadingText_append {first : List Element} (h : behindLiterals first = [])
    (second : List Element) :
    leadingText (first ++ second) = leadingText first ++ leadingText second ∧
      behindLiterals (first ++ second) = behindLiterals second := by
  induction first with
  | nil => exact ⟨rfl, rfl⟩
  | cons e first ih =>
      cases e with
      | literal text location =>
          obtain ⟨hlead, hbehind⟩ := ih h
          refine ⟨?_, hbehind⟩
          rw [List.cons_append, leadingText, leadingText, hlead, List.append_assoc]
      | _ => cases h

/-- Elements that do not begin with a literal. -/
def StartsApart (es : List Element) : Prop :=
  ∀ text location, es.head? ≠ some (.literal text location)

/-- Behind the literals comes no other. -/
theorem startsApart_joined (es : List Element) : StartsApart (joined (behindLiterals es)) := by
  intro text location
  rcases behindLiterals_cases es with hnil | ⟨e, others, hcons, hother⟩
  · rw [hnil]
    simp [joined, eraseElements, joinElements]
  · rw [hcons, joined_cons hother, List.head?_cons, Ne, Option.some.injEq]
    exact seen_ne_literal hother text location

/-- A literal that says `text`, if that is anything, in front of other elements. -/
def precede (text : List Char) (es : List Element) : List Element :=
  if text = [] then es else .literal (String.ofList text) .blank :: es

theorem glue_precede {text : String} (h : text ≠ "") (said : List Char) {es : List Element}
    (happart : StartsApart es) :
    glue (.literal text .blank) (precede said es) = precede (text.toList ++ said) es := by
  have hne : text.toList ++ said ≠ [] := by simp [h]
  rw [precede, precede, if_neg hne]
  split
  · next hnil =>
      rw [hnil, List.append_nil, String.ofList_toList]
      cases es with
      | nil => rfl
      | cons e es =>
          cases e with
          | literal text location => exact absurd rfl (happart text location)
          | _ => rfl
  · rw [glue, String.ofList_append, String.ofList_toList]

theorem precede_inj {first second : List Char} {es es' : List Element} (happart : StartsApart es)
    (happart' : StartsApart es') :
    precede first es = precede second es' ↔ first = second ∧ es = es' := by
  constructor
  · intro h
    unfold precede at h
    split at h
    · split at h
      · simp_all
      · subst h
        exact absurd rfl (happart _ _)
    · split at h
      · subst h
        exact absurd rfl (happart' _ _)
      · simp only [List.cons.injEq, Element.literal.injEq, and_true] at h
        exact ⟨String.ofList_injective h.1, h.2⟩
  · rintro ⟨rfl, rfl⟩
    rfl

/-- Joining makes one literal of those in front. -/
theorem joined_eq_precede {es : List Element} (h : Filled es) :
    joined es = precede (leadingText es) (joined (behindLiterals es)) := by
  induction es with
  | nil => rfl
  | cons e es ih =>
      cases e with
      | literal text location =>
          rw [joined_literal, ih h.tail, leadingText, behindLiterals]
          exact glue_precede (h text location List.mem_cons_self) _ (startsApart_joined es)
      | _ => rfl

/-- Texts are equal when joined if their first literals say the same and what is
behind these is equal when joined. -/
theorem joined_eq_iff {es es' : List Element} (h : Filled es) (h' : Filled es') :
    joined es = joined es' ↔ leadingText es = leadingText es' ∧
      joined (behindLiterals es) = joined (behindLiterals es') := by
  rw [joined_eq_precede h, joined_eq_precede h',
    precede_inj (startsApart_joined es) (startsApart_joined es')]

/-! ## Literals that can stand side by side -/

/-- What is written of the literals in front of all other elements. -/
def literalPieces (inPlural : Bool) : List Element → List Piece
  | .literal text _ :: es => pieces inPlural text.toList ++ literalPieces inPlural es
  | _ => []

mutual

/-- Whether literals in the element can stand side by side. -/
def Element.joins (tags inPlural : Bool) : Element → Bool
  | .selector kind _ branches _ => branchesJoin tags kind.isPlural branches
  | .tag _ children _ => joins tags inPlural children
  | _ => true

/-- Whether literals can stand side by side, at every depth: what is written of
those that meet fits together. -/
def joins (tags inPlural : Bool) : List Element → Bool
  | [] => true
  | e :: es => fits tags (literalPieces inPlural (e :: es)) && e.joins tags inPlural &&
    joins tags inPlural es

/-- Whether literals in the branches can stand side by side. -/
def branchesJoin (tags inPlural : Bool) : List (Branch Element) → Bool
  | [] => true
  | ⟨_, value, _⟩ :: branches => joins tags inPlural value && branchesJoin tags inPlural branches

end

/-- Nothing that a text needs is lost when it is written, and its literals can
stand side by side. -/
structure Rejoinable (o : ParseOptions) (inPlural : Bool) (es : List Element) : Prop where
  reprintable : Reprintable es
  joins : joins (!o.ignoreTag) inPlural es = true

theorem renderElements_eq (inPlural : Bool) (es : List Element) :
    renderElements inPlural es = renderPieces (literalPieces inPlural es) ++
      renderElements inPlural (behindLiterals es) := by
  induction es with
  | nil => rfl
  | cons e es ih =>
      cases e with
      | literal text location =>
          rw [renderElements, renderElement, literalPieces, behindLiterals, renderPieces_append,
            renderPieces_pieces, ih, List.append_assoc]
      | _ => rfl

theorem saidPieces_literalPieces (inPlural : Bool) (es : List Element) :
    saidPieces (literalPieces inPlural es) = leadingText es := by
  induction es with
  | nil => rfl
  | cons e es ih =>
      cases e with
      | literal text location =>
          rw [literalPieces, saidPieces_append, saidPieces_pieces, ih, leadingText]
      | _ => rfl

theorem proper_of_mem_literalPieces {s : Scope} {es : List Element} {p : Piece}
    (h : p ∈ literalPieces s.plural es) : p.Proper s := by
  induction es with
  | nil => cases h
  | cons e es ih =>
      cases e with
      | literal text location =>
          rcases List.mem_append.mp h with hfirst | hrest
          · exact proper_of_mem_pieces hfirst
          · exact ih hrest
      | _ => cases h

theorem branchesJoin_iff {tags inPlural : Bool} {branches : List (Branch Element)} :
    branchesJoin tags inPlural branches = true ↔
      ∀ b ∈ branches, joins tags inPlural b.value = true := by
  induction branches with
  | nil => simp [branchesJoin]
  | cons b branches ih => rw [branchesJoin, Bool.and_eq_true, ih, List.forall_mem_cons]

/-- What fits, fits from any piece on. -/
theorem fits_of_append {tags : Bool} {first second : List Piece}
    (h : fits tags (first ++ second) = true) : fits tags second = true := by
  induction first with
  | nil => exact h
  | cons p first ih =>
      cases p <;>
        · rw [List.cons_append, fits, Bool.and_eq_true] at h
          exact ih h.2

section Rejoinable

variable {o : ParseOptions} {inPlural : Bool}

theorem rejoinable_nil : Rejoinable o inPlural [] := ⟨trivial, rfl⟩

/-- Of the literals in front nothing is asked but that they fit together. -/
theorem rejoinable_iff_behindLiterals {es : List Element} :
    Rejoinable o inPlural es ↔
      fits (!o.ignoreTag) (literalPieces inPlural es) = true ∧
        Rejoinable o inPlural (behindLiterals es) := by
  induction es with
  | nil => exact ⟨fun h => ⟨rfl, h⟩, fun h => h.2⟩
  | cons e es ih =>
      cases e with
      | literal text location =>
          constructor
          · rintro ⟨⟨-, hreprintable⟩, hjoins⟩
            simp only [joins, Element.joins, Bool.and_true, Bool.and_eq_true]
              at hjoins
            exact ⟨hjoins.1, (ih.mp ⟨hreprintable, hjoins.2⟩).2⟩
          · rintro ⟨hfits, hbehind⟩
            have hrest := ih.mpr ⟨fits_of_append hfits, hbehind⟩
            refine ⟨⟨trivial, hrest.reprintable⟩, ?_⟩
            simp only [joins, Element.joins, hfits, hrest.joins, Bool.and_true]
      | _ => exact ⟨fun h => ⟨rfl, h⟩, fun h => h.2⟩

theorem keeps_rejoinable_iff {e : Element} :
    e.Keeps (Rejoinable o) inPlural ↔
      e.Reprintable ∧ e.joins (!o.ignoreTag) inPlural = true := by
  cases e with
  | selector kind name branches location =>
      simp only [Element.Keeps, Element.Reprintable, Element.joins, branchesReprintable_iff,
        branchesJoin_iff]
      constructor
      · rintro ⟨hoffset, hbranches⟩
        exact ⟨⟨hoffset, fun b hb => (hbranches b hb).reprintable⟩,
          fun b hb => (hbranches b hb).joins⟩
      · rintro ⟨⟨hoffset, hreprintable⟩, hjoins⟩
        exact ⟨hoffset, fun b hb => ⟨hreprintable b hb, hjoins b hb⟩⟩
  | tag name children location => exact ⟨fun h => ⟨h.reprintable, h.joins⟩, fun h => ⟨h.1, h.2⟩⟩
  | _ => simp [Element.Keeps, Element.Reprintable, Element.joins]

/-- Elements other than literals are asked for one by one. -/
theorem rejoinable_cons {e : Element} (hother : ∀ text location, e ≠ .literal text location)
    {es : List Element} :
    Rejoinable o inPlural (e :: es) ↔
      e.Keeps (Rejoinable o) inPlural ∧ Rejoinable o inPlural es := by
  have hnone : literalPieces inPlural (e :: es) = [] := by
    cases e with
    | literal text location => exact absurd rfl (hother text location)
    | _ => rfl
  have hjoins : joins (!o.ignoreTag) inPlural (e :: es) =
      (e.joins (!o.ignoreTag) inPlural && joins (!o.ignoreTag) inPlural es) := by
    rw [joins, hnone, fits, Bool.true_and]
  rw [keeps_rejoinable_iff]
  constructor
  · rintro ⟨⟨hfirst, hrest⟩, hall⟩
    rw [hjoins, Bool.and_eq_true] at hall
    exact ⟨⟨hfirst, hall.1⟩, hrest, hall.2⟩
  · rintro ⟨⟨hfirst, hfirstJoins⟩, hrest, hrestJoins⟩
    exact ⟨⟨hfirst, hrest⟩, by rw [hjoins, hfirstJoins, hrestJoins]; rfl⟩

end Rejoinable

/-! ## Reading joined texts -/

/-- No literal begins where another element was written. -/
theorem literals_renderElement {o : ParseOptions} {s : Scope} {e : Element}
    (hother : ∀ text location, e ≠ .literal text location) (hlegible : e.Legible o)
    (hsign : ∀ location, e = .pound location → s.plural = true) (tail : List Char) :
    literals o s false (renderElement s.plural e ++ tail) =
      ([], renderElement s.plural e ++ tail) := by
  have hends := endsLiteral_renderElement hlegible hsign
    (fun text location heq => absurd heq (hother text location)) tail
  have hself : selfClosing? o (renderElement s.plural e ++ tail) = none := by
    cases e with
    | literal text location => exact absurd rfl (hother text location)
    | argument | number | dateTime | selector | pound => rfl
    | tag name children location =>
        obtain ⟨htags, hname⟩ := hlegible
        cases htext : name.toList with
        | nil => simp [htext, isTagName] at hname
        | cons letter text =>
            rw [htext] at hname
            simp only [isTagName, Bool.and_eq_true] at hname
            simp only [renderElement, htext, List.cons_append, List.append_assoc, selfClosing?,
              htags, Bool.false_eq_true, if_false, closedTag?, hname.1, if_true]
            rw [Cursor.dropWhile_append_of_stop hname.2 rfl,
              List.dropWhile_cons_of_neg (by decide)]
            rfl
  rw [literals_of_endsLiteral hends, hself]

section Derivations

variable {R : NestedRelation} {o : ParseOptions} {s : Scope} {c d : Cursor}

theorem ElementRead.text_ne {text : String} {location : Location}
    (h : ElementRead R o s c (.literal text location) d) : text ≠ "" := by
  generalize he : Element.literal text location = e at h
  cases h with
  | literal begins =>
      cases he
      simpa [String.ofList_eq_empty_iff] using literalText_ne_nil begins
  | selfClosing tags begins closed =>
      cases he
      simp
  | _ => cases he

theorem ElementsRead.filled {es : List Element} (h : ElementsRead R o s c es d) : Filled es := by
  induction h with
  | nil c => exact fun _ _ hmem => nomatch hmem
  | cons first rest ih =>
      intro text location hmem
      rcases List.mem_cons.mp hmem with rfl | hmem
      · exact first.text_ne
      · exact ih text location hmem

theorem ElementsRead.append {mid : Cursor} {first second : List Element}
    (hfirst : ElementsRead R o s c first mid) (hsecond : ElementsRead R o s mid second d) :
    ElementsRead R o s c (first ++ second) d := by
  induction hfirst with
  | nil c => exact hsecond
  | cons first rest ih => exact .cons first (ih hsecond)

end Derivations

section Texts

variable {o : ParseOptions} {budget : Nat} {s : Scope} {es : List Element} {tail : List Char}

theorem recoversText_nil (budget : Nat) (htail : Closes o s tail) :
    RecoversText (readMessage o (budget + 1)) joined (Rejoinable o) s [] tail := by
  intro c hc
  have hrest : c.rest = tail := hc
  exact ⟨fun _ => ⟨[], c, readMessage_succ_iff.mpr ⟨.nil c, hrest ▸ htail⟩, rfl, hrest⟩,
    fun _ _ _ _ => rejoinable_nil⟩

/-- Literals in front of a text that comes back joined. -/
theorem RecoversText.literals
    (h : RecoversText (readMessage o (budget + 1)) joined (Rejoinable o) s (behindLiterals es) tail)
    (hfilled : Filled es)
    (hover : MessagePattern.literals o s false
        (renderElements s.plural (behindLiterals es) ++ tail) =
      ([], renderElements s.plural (behindLiterals es) ++ tail)) :
    RecoversText (readMessage o (budget + 1)) joined (Rejoinable o) s es tail := by
  intro c hc
  rw [renderElements_eq, List.append_assoc] at hc
  rw [rejoinable_iff_behindLiterals]
  have htells : Tells o s _ (literalPieces s.plural es) :=
    tells_of_proper hover fun p hp => proper_of_mem_literalPieces hp
  constructor
  · rintro ⟨hfits, hfine⟩
    have hsaid := htells.complete hfits
    rw [← hc, saidPieces_literalPieces] at hsaid
    obtain ⟨lits, stop, hlits, hall, hlead⟩ :=
      exists_literals (NestedReader.Gives (readMessage o budget)) o s c
    obtain ⟨hleading, hstop⟩ := Prod.mk.inj (hlead.symm.trans hsaid)
    obtain ⟨again, d, hread, hsame, hd⟩ := (h stop hstop).complete hfine
    obtain ⟨hagain, hcloses⟩ := readMessage_succ_iff.mp hread
    refine ⟨lits ++ again, d, readMessage_succ_iff.mpr ⟨hlits.append hagain, hcloses⟩, ?_, hd⟩
    -- What is read behind the literals begins with none, as what was written there.
    obtain ⟨hnone, hsame⟩ := (joined_eq_iff hagain.filled hfilled.behindLiterals).mp hsame
    rw [leadingText_behindLiterals] at hnone
    rw [behindLiterals_behindLiterals] at hsame
    obtain ⟨hleads, hbehinds⟩ := leadingText_append hall again
    rw [joined_eq_iff (hlits.append hagain).filled hfilled, hleads, hbehinds, hnone,
      List.append_nil]
    exact ⟨hleading, hsame⟩
  · intro again d hread hsame
    obtain ⟨hagain, hcloses⟩ := readMessage_succ_iff.mp hread
    obtain ⟨stop, hsaid, hrest⟩ := hagain.exists_behindLiterals hcloses
    obtain ⟨hlead, hbehind⟩ := (joined_eq_iff hagain.filled hfilled).mp hsame
    rw [hc, hlead, ← saidPieces_literalPieces s.plural] at hsaid
    have hfits := htells.faithful (congrArg Prod.fst hsaid)
    have hstop := congrArg Prod.snd ((htells.complete hfits).symm.trans hsaid)
    exact ⟨hfits, (h stop hstop.symm).faithful _ d
      (readMessage_succ_iff.mpr ⟨hrest, hcloses⟩) hbehind⟩

/-- Another element in front of a text that comes back joined. -/
theorem RecoversText.cons {e : Element}
    (h : RecoversText (readMessage o (budget + 1)) joined (Rejoinable o) s es tail)
    (hother : ∀ text location, e ≠ .literal text location) (hlegible : e.Legible o)
    (hsign : ∀ location, e = .pound location → s.plural = true)
    (hinner : e.RecoversTexts (readMessage o budget) joined (Rejoinable o) s) :
    RecoversText (readMessage o (budget + 1)) joined (Rejoinable o) s (e :: es) tail := by
  intro c hc
  rw [renderElements, List.append_assoc] at hc
  rw [rejoinable_cons hother]
  have hfirst := readElement_recovers hc hother hlegible hsign hinner
  constructor
  · rintro ⟨hfine, hfine'⟩
    obtain ⟨e', d, hread, hseen, hd⟩ := hfirst.complete hfine
    obtain ⟨again, d', hreads, hsame, hd'⟩ := (h d hd).complete hfine'
    obtain ⟨hagain, hcloses⟩ := readMessage_succ_iff.mp hreads
    have hread' := (readElement_iff reaches_of_readMessage).mp hread
    refine ⟨e' :: again, d', readMessage_succ_iff.mpr ⟨.cons hread' hagain, hcloses⟩, ?_, hd'⟩
    have hother' : ∀ text location, e' ≠ .literal text location := by
      rintro text location rfl
      exact seen_ne_literal hother text .blank hseen.symm
    rw [joined_cons hother, joined_cons hother', hseen, hsame]
  · intro all d' hok hsame
    obtain ⟨hall, hcloses⟩ := readMessage_succ_iff.mp hok
    rw [joined_cons hother] at hsame
    cases hall with
    | nil => cases hsame
    | @cons _ d _ e' again first rest =>
        have hother' : ∀ text location, e' ≠ .literal text location := by
          rintro text location rfl
          rw [joined_literal] at hsame
          exact glue_ne_of_seen hother hsame
        rw [joined_cons hother', List.cons.injEq] at hsame
        have hread := (readElement_iff reaches_of_readMessage).mpr first
        have hfine := hfirst.faithful e' d hread hsame.1
        obtain ⟨e₀, d₀, hread₀, -, hd⟩ := hfirst.complete hfine
        cases hread.symm.trans hread₀
        exact ⟨hfine, (h d hd).faithful again d' (readMessage_succ_iff.mpr ⟨rest, hcloses⟩)
          hsame.2⟩

/-- A text comes back joined if the texts in its elements do. -/
theorem recoversText_joined (hlegible : ∀ e ∈ es, e.Legible o)
    (hsigns : ∀ location, .pound location ∈ es → s.plural = true)
    (hinner : ∀ e ∈ es, e.RecoversTexts (readMessage o budget) joined (Rejoinable o) s)
    (htail : Closes o s tail) :
    RecoversText (readMessage o (budget + 1)) joined (Rejoinable o) s es tail := by
  -- From one run of literals to the next.
  generalize hn : es.length = n
  induction n using Nat.strongRecOn generalizing es with
  | ind n ih =>
  have hfilled : Filled es := fun text location hmem => hlegible _ hmem
  have hsuffix := behindLiterals_suffix es
  rcases behindLiterals_cases es with hnil | ⟨e, others, hcons, hother⟩
  · have hrest := recoversText_nil budget htail
    rw [← hnil] at hrest
    exact hrest.literals hfilled (by rw [hnil]; exact htail.literals_eq_nil)
  · rw [hcons] at hsuffix
    have hmem : e ∈ es := hsuffix.mem List.mem_cons_self
    have hothers : ∀ e' ∈ others, e' ∈ es :=
      fun e' he' => hsuffix.mem (List.mem_cons_of_mem e he')
    have hsign : ∀ location, e = .pound location → s.plural = true :=
      fun location heq => hsigns location (heq ▸ hmem)
    have hshorter : others.length < n := by
      have hlength := hsuffix.length_le
      rw [List.length_cons] at hlength
      omega
    have hrest := (ih others.length hshorter (fun e' he' => hlegible e' (hothers e' he'))
      (fun location hp => hsigns location (hothers _ hp))
      (fun e' he' => hinner e' (hothers e' he')) rfl).cons hother (hlegible e hmem) hsign
        (hinner e hmem)
    rw [← hcons] at hrest
    apply hrest.literals hfilled
    rw [hcons, renderElements, List.append_assoc]
    exact literals_renderElement hother (hlegible e hmem) hsign _

end Texts

end MessagePattern
