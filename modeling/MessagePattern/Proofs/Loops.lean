/-
# The loops of reading

Two loops drive a reader: one turn of the first reads an element of a text, one turn
of the second a branch of a selector.  Each turn that does not end its loop moves the
cursor strictly forward.  So the bounds on the number of turns, by which the loops are
defined, are never met: the loops are the only solutions of equations without them.
-/

import MessagePattern.Proofs.ForwardOnly

namespace MessagePattern

open Cursor

/-! ## Strictly ahead -/

/-- The second cursor is met by reading on past one scalar at least. -/
def Cursor.Ahead (c d : Cursor) : Prop := ∃ text, text ≠ [] ∧ c.Passes text d

namespace Cursor

variable {c d : Cursor}

theorem Ahead.length_lt (h : c.Ahead d) : d.rest.length < c.rest.length := by
  obtain ⟨text, hne, hpasses⟩ := h
  have hpos := List.length_pos_iff.mpr hne
  rw [hpasses.rest, List.length_append]
  omega

theorem ahead_of_length_lt (h : c.Reaches d) (hlt : d.rest.length < c.rest.length) :
    c.Ahead d := by
  obtain ⟨text, hpasses⟩ := h.passes
  refine ⟨text, ?_, hpasses⟩
  rintro rfl
  rw [hpasses.rest] at hlt
  exact Nat.lt_irrefl _ hlt

theorem ahead_of_bump (hne : c.rest ≠ []) (h : c.bump.Reaches d) : c.Ahead d := by
  apply ahead_of_length_lt ((reaches_bump c).trans h)
  have hle := h.length_le
  rw [rest_bump, List.length_drop] at hle
  have hpos := List.length_pos_iff.mpr hne
  omega

end Cursor

/-! ## Loops -/

section Loops

variable {ε α σ : Type} (turn : σ → Except ε (Option (α × σ)))

/-- Takes one turn, and goes on with `next` unless the turn finds nothing more. -/
def takeTurn (next : σ → Except ε (List α × σ)) (x : σ) : Except ε (List α × σ) := do
  match ← turn x with
  | none => .ok ([], x)
  | some (a, y) =>
    let (found, z) ← next y
    .ok (a :: found, z)

/-- Takes turns until one of them finds nothing more, and at most `bound` of them. -/
def boundedLoop : (bound : Nat) → σ → Except ε (List α × σ)
  | 0, x => .ok ([], x)
  | bound + 1, x => takeTurn turn (boundedLoop bound) x

/-- A function does what taking turns without any bound would do. -/
def IsLoop (run : σ → Except ε (List α × σ)) : Prop := ∀ x, run x = takeTurn turn run x

/-- Every turn leaves less to do, and where nothing is left a turn finds nothing. -/
structure Descends (size : σ → Nat) : Prop where
  smaller : ∀ x a y, turn x = .ok (some (a, y)) → size y < size x
  finished : ∀ x, size x = 0 → turn x = .ok none

variable {turn}

/-- It matters only where the turn leads. -/
theorem takeTurn_congr {next next' : σ → Except ε (List α × σ)} {x : σ}
    (h : ∀ a y, turn x = .ok (some (a, y)) → next y = next' y) :
    takeTurn turn next x = takeTurn turn next' x := by
  unfold takeTurn
  cases hturn : turn x with
  | error e => rfl
  | ok found =>
      match found with
      | none => rfl
      | some (a, y) => simp only [bind, Except.bind, h a y hturn]

theorem takeTurn_of_none {x : σ} (h : turn x = .ok none) (next : σ → Except ε (List α × σ)) :
    takeTurn turn next x = .ok ([], x) := by
  rw [takeTurn, h]
  rfl

namespace Descends

variable {size : σ → Nat} (h : Descends turn size)

include h

/-- A bound that allows as many turns as there is to do is never met. -/
theorem boundedLoop_eq {m n : Nat} {x : σ} (hm : size x ≤ m) (hn : size x ≤ n) :
    boundedLoop turn m x = boundedLoop turn n x := by
  have hover {x : σ} (hx : size x ≤ 0) (k : Nat) : boundedLoop turn k x = .ok ([], x) := by
    cases k with
    | zero => rfl
    | succ k => exact takeTurn_of_none (h.finished x (Nat.le_zero.mp hx)) _
  induction m generalizing n x with
  | zero => rw [hover hm, hover hm]
  | succ m ih =>
      cases n with
      | zero => rw [hover hn, hover hn]
      | succ n =>
          apply takeTurn_congr
          intro a y hturn
          have hlt := h.smaller x a y hturn
          exact ih (by omega) (by omega)

theorem isLoop_boundedLoop : IsLoop turn fun x => boundedLoop turn (size x) x := by
  intro x
  refine (h.boundedLoop_eq (Nat.le_refl _) (Nat.le_succ (size x))).trans ?_
  apply takeTurn_congr
  intro a y hturn
  exact h.boundedLoop_eq (Nat.le_of_lt (h.smaller x a y hturn)) (Nat.le_refl _)

/-- Taking turns without any bound determines an outcome, which is the one that is
reached within the bound. -/
theorem isLoop_iff {run : σ → Except ε (List α × σ)} :
    IsLoop turn run ↔ run = fun x => boundedLoop turn (size x) x := by
  constructor
  · intro hrun
    have hall (n : Nat) : ∀ x, size x < n → run x = boundedLoop turn (size x) x := by
      induction n with
      | zero => exact fun x hx => absurd hx (Nat.not_lt_zero _)
      | succ n ih =>
          intro x hx
          rw [hrun x]
          refine Eq.trans ?_ (h.isLoop_boundedLoop x).symm
          apply takeTurn_congr
          intro a y hturn
          exact ih y (Nat.lt_of_lt_of_le (h.smaller x a y hturn) (Nat.le_of_lt_succ hx))
    funext x
    exact hall (size x + 1) x (Nat.lt_succ_self _)
  · rintro rfl
    exact h.isLoop_boundedLoop

end Descends

end Loops

/-! ## The loop over a text -/

section Texts

variable {inner : NestedReader} {o : ParseOptions} {s : Scope} {c d : Cursor}

/-- The loop over a text finds none of the syntax that it looks for in front of
literal text. -/
structure TakenForText (o : ParseOptions) (s : Scope) (ch : Char) (text : List Char) : Prop where
  argument : ch ≠ '{'
  closing : ¬ (ch = '}' ∧ s.nested = true)
  sign : ¬ (ch = '#' ∧ s.plural = true)
  closingTag : ¬ (ch = '<' ∧ o.ignoreTag = false ∧ text.head? = some '/')
  openingTag : ¬ (ch = '<' ∧ o.ignoreTag = false ∧ text.head?.any isTagLetter = true)

/-- What the loop takes for literal text does not end a literal. -/
theorem TakenForText.not_endsLiteral {ch : Char} {text : List Char}
    (h : TakenForText o s ch text) : ¬ EndsLiteral o s (ch :: text) := by
  intro hends
  simp only [EndsLiteral, Scope.endsLiteral] at hends
  split at hends
  · exact h.argument rfl
  · exact h.closing ⟨rfl, hends⟩
  · exact h.sign ⟨rfl, hends⟩
  · rw [Bool.and_eq_true, Bool.not_eq_true', Option.any_eq_true] at hends
    obtain ⟨htags, letter, hhead, hstart⟩ := hends
    rw [isTagStart, Bool.or_eq_true, beq_iff_eq] at hstart
    rcases hstart with hletter | rfl
    · exact h.openingTag ⟨rfl, htags, by simpa [hhead] using hletter⟩
    · exact h.closingTag ⟨rfl, htags, hhead⟩
  · cases hends

theorem ahead_of_readElement (hinner : ∀ s c, Forward Prod.snd c (inner s c)) {e : Element}
    (h : readElement inner o s c = .ok (some (e, d))) : c.Ahead d := by
  have hreach {s : Scope} {c : Cursor} {es : List Element} {d : Cursor}
      (hnested : inner.Gives s c es d) : c.Reaches d :=
    (hinner s c).reaches (es, d) hnested
  have hread := (readElement_iff hreach).mp h
  exact ahead_of_length_lt (hread.reaches hreach) (hread.length_lt hreach)

/-- Where the loop takes what is ahead for literal text, a literal is read that says
something and takes a scalar at least. -/
theorem readElement_of_takenForText (inner : NestedReader) {ch : Char} {text : List Char}
    (hrest : c.rest = ch :: text) (h : TakenForText o s ch text) :
    ∃ said location d, readElement inner o s c = .ok (some (.literal said location, d)) ∧
      said ≠ "" ∧ c.Ahead d := by
  have hbegins : ¬ EndsLiteral o s c.rest := hrest ▸ h.not_endsLiteral
  refine ⟨_, _, _, readElement_of_text inner o s hbegins, ?_, ?_⟩
  · have hsaid := literalText_ne_nil hbegins
    simpa using hsaid
  · have hread := readElement_of_text (fun _ c => c.fail .other c.here) o s hbegins
    exact ahead_of_readElement (fun s c => .fail (.refl c)) hread

theorem descends_readElement (hinner : ∀ s c, Forward Prod.snd c (inner s c)) :
    Descends (readElement inner o s) (fun c => c.rest.length) where
  smaller _ _ _ h := (ahead_of_readElement hinner h).length_lt
  finished c h := by
    have hrest : c.rest = [] := List.length_eq_zero_iff.mp h
    simp [readElement, hrest]

theorem readElements_eq_boundedLoop (bound : Nat) :
    readElements inner o s bound c = boundedLoop (readElement inner o s) bound c := by
  induction bound generalizing c with
  | zero => rfl
  | succ bound ih =>
      rw [readElements, boundedLoop, takeTurn]
      cases readElement inner o s c with
      | error f => rfl
      | ok found =>
          cases found with
          | none => rfl
          | some pair => simp only [bind, Except.bind, ih]

end Texts

/-- Reads the text of a scope at a level of nesting, of which the message itself has
the lowest. -/
def readAtLevel (o : ParseOptions) (level : Nat) : NestedReader :=
  readMessage o (o.maxNestingDepth + 1 - level)

/-- What the readers of texts at all levels would do without a bound on the number of
elements: too deep they fail, and otherwise they take turns. -/
structure IsMessageReader (o : ParseOptions) (read : Nat → NestedReader) : Prop where
  tooDeep : ∀ level s c, o.maxNestingDepth < level →
    read level s c = c.fail .exceededMaxNestingDepth c.here
  loop : ∀ level s, level ≤ o.maxNestingDepth →
    IsLoop (readElement (read (level + 1)) o s) (read level s)

section Levels

variable (o : ParseOptions)

theorem readAtLevel_of_lt {level : Nat} (h : o.maxNestingDepth < level) (s : Scope) (c : Cursor) :
    readAtLevel o level s c = c.fail .exceededMaxNestingDepth c.here := by
  rw [readAtLevel, Nat.sub_eq_zero_of_le h]
  rfl

theorem readAtLevel_of_le {level : Nat} (h : level ≤ o.maxNestingDepth) (s : Scope) (c : Cursor) :
    readAtLevel o level s c =
      boundedLoop (readElement (readAtLevel o (level + 1)) o s) c.rest.length c := by
  have hbudget : o.maxNestingDepth + 1 - level = o.maxNestingDepth + 1 - (level + 1) + 1 := by
    omega
  rw [← readElements_eq_boundedLoop, readAtLevel, hbudget]
  rfl

theorem forward_readAtLevel (level : Nat) (s : Scope) (c : Cursor) :
    Forward Prod.snd c (readAtLevel o level s c) :=
  forward_readMessage o _ s c

/-- The turns of the reader at one level are those of no other loop. -/
theorem isLoop_readElement_iff {level : Nat} (h : level ≤ o.maxNestingDepth) (s : Scope)
    {run : Cursor → Except Failure (List Element × Cursor)} :
    IsLoop (readElement (readAtLevel o (level + 1)) o s) run ↔ run = readAtLevel o level s := by
  have hlevel : readAtLevel o level s = fun c =>
      boundedLoop (readElement (readAtLevel o (level + 1)) o s) c.rest.length c :=
    funext (readAtLevel_of_le o h s)
  rw [hlevel]
  exact (descends_readElement (forward_readAtLevel o (level + 1))).isLoop_iff

/-- Without bounds on the number of elements, reading would do what it does. -/
theorem isMessageReader_iff {read : Nat → NestedReader} :
    IsMessageReader o read ↔ read = readAtLevel o := by
  constructor
  · intro hread
    -- From the deepest level outwards, the turns of both readers are the same.
    have hall (n level : Nat) (hn : o.maxNestingDepth + 1 - level = n) :
        read level = readAtLevel o level := by
      induction n generalizing level with
      | zero =>
          funext s c
          rw [hread.tooDeep level s c (by omega), readAtLevel_of_lt o (by omega)]
      | succ n ih =>
          funext s
          have hloop := hread.loop level s (by omega)
          rw [ih (level + 1) (by omega)] at hloop
          exact (isLoop_readElement_iff o (by omega) s).mp hloop
    funext level
    exact hall _ level rfl
  · rintro rfl
    exact ⟨fun level s c h => readAtLevel_of_lt o h s c,
      fun level s h => (isLoop_readElement_iff o h s).mpr rfl⟩

end Levels

/-! ## The loop over branches -/

/-- One turn of the loop over the branches of a selector: a selector that was not seen
before and the text behind it.  Without a selector the branches are over. -/
def readBranch (inner : NestedReader) (s : Scope) (plural : Bool) :
    List String × Cursor → Except Failure (Option (Branch Element × List String × Cursor))
  | (seen, c) => do
    match ← readSelector plural c with
    | none => .ok none
    | some (selector, d) =>
      if selector ∈ seen then d.fail (SelectorErrors.of plural).duplicate (d.since c.position)
      else
        let (branch, d) ← readFragment inner s plural selector d
        .ok (some (branch, selector :: seen, d))

section Branches

variable {inner : NestedReader} {s : Scope} {plural : Bool}

theorem readBranch_eq_ok {seen seen' : List String} {c d : Cursor} {branch : Branch Element}
    (h : readBranch inner s plural (seen, c) = .ok (some (branch, seen', d))) :
    ∃ selector e, readSelector plural c = .ok (some (selector, e)) ∧
      readFragment inner s plural selector e = .ok (branch, d) := by
  obtain ⟨found, hfound, rest⟩ := bind_eq_ok h
  match found with
  | none => cases rest
  | some (selector, e) =>
      simp only at rest
      split at rest
      · cases rest
      · obtain ⟨pair, hpair, hlast⟩ := bind_eq_ok rest
        cases hlast
        exact ⟨selector, e, hfound, hpair⟩

/-- A turn of the loop over branches takes an opening and a closing brace at least. -/
theorem passes_of_readBranch (hinner : ∀ s c, Forward Prod.snd c (inner s c))
    {seen seen' : List String} {c d : Cursor} {branch : Branch Element}
    (h : readBranch inner s plural (seen, c) = .ok (some (branch, seen', d))) :
    ∃ front body back, c.Passes (front ++ '{' :: (body ++ '}' :: back)) d := by
  obtain ⟨selector, e, hselector, hfragment⟩ := readBranch_eq_ok h
  obtain ⟨body, hbody, rest⟩ := bind_eq_ok hfragment
  obtain ⟨⟨value, closing⟩, hvalue, rest⟩ := bind_eq_ok rest
  obtain ⟨after, hafter, hlast⟩ := bind_eq_ok rest
  cases hlast
  obtain ⟨front, hfront⟩ :=
    ((reaches_of_readSelector hselector).trans (reaches_skipSpace e)).passes
  obtain ⟨text, htext⟩ := ((hinner _ body).reaches _ hvalue).passes
  refine ⟨front, text, after.rest.takeWhile isPatternSpace, ?_⟩
  apply hfront.trans
  apply (Passes.of_expect hbody).trans
  apply htext.trans
  exact (Passes.of_closeBrace hafter).trans (passes_skipSpace after)

theorem descends_readBranch (hinner : ∀ s c, Forward Prod.snd c (inner s c)) :
    Descends (readBranch inner s plural) (fun x => x.2.rest.length) where
  smaller := by
    rintro ⟨seen, c⟩ branch ⟨seen', d⟩ h
    obtain ⟨front, body, back, hpasses⟩ := passes_of_readBranch hinner h
    have hahead : c.Ahead d := ⟨_, by simp, hpasses⟩
    exact hahead.length_lt
  finished := by
    rintro ⟨seen, c⟩ h
    have hrest : c.rest = [] := List.length_eq_zero_iff.mp h
    have hword : c.identifier.1 = "" := identifier_eq_empty (by simp [hrest])
    have hequals : c.skip? ['='] = none := by simp [skip?, hrest]
    simp [readBranch, readSelector, hword, hequals, bind, Except.bind]

theorem readBranches_eq_boundedLoop (bound : Nat) (seen : List String) (c : Cursor) :
    readBranches inner s plural bound seen c =
      (fun found => (found.1, found.2.2)) <$>
        boundedLoop (readBranch inner s plural) bound (seen, c) := by
  induction bound generalizing seen c with
  | zero => rfl
  | succ bound ih =>
      rw [readBranches, boundedLoop, takeTurn, readBranch]
      cases readSelector plural c with
      | error f => rfl
      | ok found =>
          cases found with
          | none => rfl
          | some pair =>
              obtain ⟨selector, d⟩ := pair
              simp only [bind, Except.bind]
              split
              · rfl
              · cases readFragment inner s plural selector d with
                | error f => rfl
                | ok branch =>
                    simp only [ih]
                    cases boundedLoop (readBranch inner s plural) bound
                      (selector :: seen, branch.2)
                    all_goals rfl

end Branches

end MessagePattern
