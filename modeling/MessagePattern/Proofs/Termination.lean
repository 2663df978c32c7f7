/-
# Reading comes to an end

`Active` tells which texts are being read at a time, from the innermost outwards.  A
text is nested strictly ahead of the turn that asks for it, and every turn moves
strictly forward, so turns and nested texts follow each other only finitely often.
There are no more texts being read than the options allow levels, but for one that is
found to be too deep and fails at once.

`Progresses` puts this together with what is known of the two loops of reading and of
every production.
-/

import MessagePattern.Proofs.Loops

namespace MessagePattern

open Cursor

/-! ## Productions -/

/-- The readers that move the cursor, with what they are handed besides it. -/
inductive Production
  | message (level : Nat) (s : Scope)
  | element (level : Nat) (s : Scope)
  | literal (s : Scope)
  | tag (level : Nat) (s : Scope)
  | tagName
  | closingTag (name : String) (opening : Position)
  | argument (level : Nat) (s : Scope)
  | argumentTail (level : Nat) (s : Scope) (name : String) (opening : Position)
  | typedArgument (level : Nat) (s : Scope) (name : String) (opening : Position)
  | identifier
  | number (name : String) (opening : Position)
  | dateTime (kind : DateTimeKind) (name : String) (opening : Position)
  | optionalStyle
  | style
  | selectorArgument (level : Nat) (s : Scope) (plural : Option PluralType) (name : String)
      (opening : Position)
  | offset (plural : Bool)
  | integer (absent excessive : ErrorKind)
  | selector (plural : Bool)
  | fragment (level : Nat) (s : Scope) (plural : Bool) (word : String)
  | branches (level : Nat) (s : Scope) (plural : Bool) (bound : Nat) (seen : List String)
  | allBranches (level : Nat) (s : Scope) (plural : Bool)
  | closeBrace (opening : Position)
  | space

/-- Where a production leaves the cursor. -/
def Production.run (o : ParseOptions) (c : Cursor) : Production → Except Failure Cursor
  | .message level s => Prod.snd <$> readAtLevel o level s c
  | .element level s => c.behind <$> readElement (readAtLevel o level) o s c
  | .literal s => .ok (readLiteral o s c).2
  | .tag level s => Prod.snd <$> readTag (readAtLevel o level) s c
  | .tagName => .ok c.tagName.2
  | .closingTag name opening => readClosingTag name opening c
  | .argument level s => Prod.snd <$> readArgument (readAtLevel o level) o s c
  | .argumentTail level s name opening =>
    Prod.snd <$> readArgumentTail (readAtLevel o level) o s name opening c
  | .typedArgument level s name opening =>
    Prod.snd <$> readTypedArgument (readAtLevel o level) o s name opening c
  | .identifier => .ok c.identifier.2
  | .number name opening => Prod.snd <$> readNumber o name opening c
  | .dateTime kind name opening => Prod.snd <$> readDateTime o kind name opening c
  | .optionalStyle => Prod.snd <$> readOptionalStyle c
  | .style => Prod.snd <$> readStyle c
  | .selectorArgument level s plural name opening =>
    Prod.snd <$> readSelectorArgument (readAtLevel o level) o s plural name opening c
  | .offset plural => Prod.snd <$> readOffset plural c
  | .integer absent excessive => Prod.snd <$> readInteger absent excessive c
  | .selector plural => c.behind <$> readSelector plural c
  | .fragment level s plural word =>
    Prod.snd <$> readFragment (readAtLevel o level) s plural word c
  | .branches level s plural bound seen =>
    Prod.snd <$> readBranches (readAtLevel o level) s plural bound seen c
  | .allBranches level s plural => Prod.snd <$> readAllBranches (readAtLevel o level) o s plural c
  | .closeBrace opening => c.closeBrace opening
  | .space => .ok c.skipSpace

/-- No production moves the cursor backwards, whether it succeeds or fails. -/
theorem forward_run (o : ParseOptions) (c : Cursor) (p : Production) :
    Forward id c (p.run o c) := by
  have hmap {α : Type} {stop : α → Cursor} {outcome : Except Failure α}
      (h : Forward stop c outcome) : Forward id c (stop <$> outcome) := h.map fun _ => rfl
  have hread {α : Type} {stop : α → Cursor} {read : NestedReader → Except Failure α}
      (h : ReadsOn stop c read) (level : Nat) :
      Forward id c (stop <$> read (readAtLevel o level)) :=
    hmap (h.forward (forward_readAtLevel o level))
  cases p with
  | message level s => exact hmap (forward_readAtLevel o level s c)
  | element level s => exact hread (readsOn_readElement o s c) level
  | literal s => exact .ok (reaches_advance _ c)
  | tag level s => exact hread (.of_reaches (reaches_bump c) (readsOn_readTag s c)) level
  | tagName => exact .ok (reaches_tagName c)
  | closingTag name opening => exact forward_readClosingTag c name opening
  | argument level s =>
      exact hread (.of_reaches (reaches_bump c) (readsOn_readArgument o s c)) level
  | argumentTail level s name opening =>
      exact hread (readsOn_readArgumentTail o s name opening c) level
  | typedArgument level s name opening =>
      exact hread (readsOn_readTypedArgument o s name opening c) level
  | identifier => exact .ok (reaches_identifier c)
  | number name opening => exact hmap (forward_readNumber c o name opening)
  | dateTime kind name opening => exact hmap (forward_readDateTime c o kind name opening)
  | optionalStyle => exact hmap (forward_readOptionalStyle c)
  | style => exact hmap (forward_readStyle c)
  | selectorArgument level s plural name opening =>
      exact hread (readsOn_readSelectorArgument o s plural name opening c) level
  | offset plural => exact hmap (forward_readOffset c plural)
  | integer absent excessive => exact hmap (forward_readInteger c absent excessive)
  | selector plural => exact hmap (forward_readSelector c plural)
  | fragment level s plural word => exact hread (readsOn_readFragment s plural word c) level
  | branches level s plural bound seen =>
      exact hread (readsOn_readBranches s plural bound seen c) level
  | allBranches level s plural => exact hread (readsOn_readAllBranches o s plural c) level
  | closeBrace opening => exact .closeBrace
  | space => exact .ok (reaches_skipSpace c)

/-! ## Texts that are being read -/

/-- A text that is being read: how deep it is nested, what encloses it, and where the
loop over it stands. -/
structure Frame where
  level : Nat
  scope : Scope
  cursor : Cursor

/-- The loop over a text takes a turn. -/
inductive Frame.Turns (o : ParseOptions) : Frame → Frame → Prop
  | mk {level : Nat} {s : Scope} {c d : Cursor} {e : Element}
      (allowed : level ≤ o.maxNestingDepth)
      (turned : readElement (readAtLevel o (level + 1)) o s c = .ok (some (e, d))) :
      Turns o ⟨level, s, c⟩ ⟨level, s, d⟩

/-- A turn of the loop over a text asks for nested text, which is one level deeper. -/
inductive Frame.Enters (o : ParseOptions) : Frame → Frame → Prop
  | mk {level : Nat} {s s' : Scope} {c d : Cursor} (allowed : level ≤ o.maxNestingDepth)
      (asked : AsksFor (fun inner => readElement inner o s c) (readAtLevel o (level + 1)) s' d) :
      Enters o ⟨level, s, c⟩ ⟨level + 1, s', d⟩

/-- The texts that are being read at some time while a message is, the innermost one
first. -/
inductive Active (o : ParseOptions) (message : List Char) : List Frame → Prop
  | start : Active o message [⟨0, .top, .start message⟩]
  | turn {f g : Frame} {outer : List Frame} (active : Active o message (f :: outer))
      (turned : f.Turns o g) : Active o message (g :: outer)
  | enter {f g : Frame} {outer : List Frame} (active : Active o message (f :: outer))
      (entered : f.Enters o g) : Active o message (g :: f :: outer)

section Frames

variable {o : ParseOptions} {f g : Frame}

theorem Frame.Turns.ahead (h : f.Turns o g) : f.cursor.Ahead g.cursor := by
  obtain ⟨-, hturned⟩ := h
  exact ahead_of_readElement (forward_readAtLevel o _) hturned

theorem Frame.Enters.ahead (h : f.Enters o g) : f.cursor.Ahead g.cursor := by
  obtain @⟨level, s, s', c, d, -, hasked⟩ := h
  rcases readElement_cases o s c with ⟨outcome, -, houtcome⟩ | ⟨hne, hread⟩
  · simp only [houtcome] at hasked
    exact absurd hasked (not_asksFor_const outcome _ s' d)
  · exact ahead_of_bump hne (hread.reaches_of_asksFor (forward_readAtLevel o _) hasked)

/-- Turns and nested texts follow each other only finitely often. -/
theorem wellFounded_frames (o : ParseOptions) :
    WellFounded fun g f : Frame => f.Turns o g ∨ f.Enters o g := by
  apply Subrelation.wf (r := InvImage (· < ·) fun f : Frame => f.cursor.rest.length) _
    (InvImage.wf _ Nat.lt_wfRel.wf)
  rintro g f (h | h)
  · exact h.ahead.length_lt
  · exact h.ahead.length_lt

/-- The innermost of the texts being read is as deep as there are texts around it, and
all of those are of an allowed level. -/
theorem Active.levels {message : List Char} {stack : List Frame} (h : Active o message stack) :
    ∃ f outer, stack = f :: outer ∧ f.level = outer.length ∧
      outer.length ≤ o.maxNestingDepth + 1 := by
  induction h with
  | start => exact ⟨_, [], rfl, rfl, Nat.zero_le _⟩
  | @turn f g outer active turned ih =>
      obtain ⟨_, _, hstack, hlevel, hle⟩ := ih
      obtain ⟨rfl, rfl⟩ := List.cons.inj hstack
      cases turned
      exact ⟨_, outer, rfl, hlevel, hle⟩
  | @enter f g outer active entered ih =>
      obtain ⟨_, _, hstack, hlevel, -⟩ := ih
      obtain ⟨rfl, rfl⟩ := List.cons.inj hstack
      cases entered with
      | mk allowed asked =>
          refine ⟨_, _, rfl, congrArg (· + 1) hlevel, ?_⟩
          rw [List.length_cons, ← hlevel]
          exact Nat.succ_le_succ allowed

/-- There are no more texts being read than allowed levels, but for one that is too
deep and fails. -/
theorem Active.length_le {message : List Char} {stack : List Frame} (h : Active o message stack) :
    stack.length ≤ o.maxNestingDepth + 1 ∨
      ∃ f outer, stack = f :: outer ∧ outer.length = o.maxNestingDepth + 1 ∧
        readAtLevel o f.level f.scope f.cursor =
          f.cursor.fail .exceededMaxNestingDepth f.cursor.here := by
  obtain ⟨f, outer, rfl, hlevel, hle⟩ := h.levels
  rcases Nat.lt_or_eq_of_le hle with hlt | heq
  · exact .inl hlt
  · exact .inr ⟨f, outer, rfl, heq, readAtLevel_of_lt o (by omega) _ _⟩

end Frames

/-! ## Progress -/

/-- Reading always makes progress. -/
structure Progresses (o : ParseOptions) : Prop where
  /-- A turn of the loop over a text fails, ends it, or moves strictly forward. -/
  turn : ∀ level s c e d,
    readElement (readAtLevel o level) o s c = .ok (some (e, d)) → c.Ahead d
  /-- What the loop takes for literal text says something and takes a scalar. -/
  literal : ∀ level s c ch text, c.rest = ch :: text → TakenForText o s ch text →
    ∃ said location d,
      readElement (readAtLevel o level) o s c = .ok (some (.literal said location, d)) ∧
        said ≠ "" ∧ c.Ahead d
  /-- A turn of the loop over branches fails, ends it, or takes two braces. -/
  branch : ∀ level s plural seen c branch seen' d,
    readBranch (readAtLevel o level) s plural (seen, c) = .ok (some (branch, seen', d)) →
      ∃ front body back, c.Passes (front ++ '{' :: (body ++ '}' :: back)) d
  /-- No production goes back. -/
  forward : ∀ (p : Production) c, Forward id c (p.run o c)
  /-- A turn asks for the nested text at a place, or it makes no difference what stands
  there. -/
  asks : ∀ level s c s' d,
    AsksFor (fun inner => readElement inner o s c) (readAtLevel o level) s' d ∨
      ∀ answer, readElement ((readAtLevel o level).answeringAt s' d answer) o s c =
        readElement (readAtLevel o level) o s c
  /-- Turns and nested texts come to an end. -/
  ends : WellFounded fun g f : Frame => f.Turns o g ∨ f.Enters o g
  /-- The loops over texts are what they are without bounds, and nothing else is. -/
  messages : ∀ read, IsMessageReader o read ↔ read = readAtLevel o
  /-- So are the loops over branches. -/
  branches : ∀ level s plural, ∃ run,
    (∀ run', IsLoop (readBranch (readAtLevel o level) s plural) run' ↔ run' = run) ∧
      ∀ seen c, readBranches (readAtLevel o level) s plural c.rest.length seen c =
        (fun found => (found.1, found.2.2)) <$> run (seen, c)
  /-- A message is read as a text of the lowest level. -/
  start : ∀ message, readAll o message = readAtLevel o 0 .top (.start message)
  /-- No more texts are being read at a time than allowed levels, but for one that fails
  for being too deep. -/
  depth : ∀ message stack, Active o message stack →
    stack.length ≤ o.maxNestingDepth + 1 ∨
      ∃ f outer, stack = f :: outer ∧ outer.length = o.maxNestingDepth + 1 ∧
        readAtLevel o f.level f.scope f.cursor =
          f.cursor.fail .exceededMaxNestingDepth f.cursor.here

/-- Whatever the message and the options, reading makes progress and comes to an end. -/
theorem reading_progresses (o : ParseOptions) : Progresses o where
  turn level _ _ _ _ h := ahead_of_readElement (forward_readAtLevel o level) h
  literal level _ _ _ _ hrest h := readElement_of_takenForText (readAtLevel o level) hrest h
  branch level _ _ _ _ _ _ _ h := passes_of_readBranch (forward_readAtLevel o level) h
  forward p c := forward_run o c p
  asks level s c s' d := by
    have hread := readsOn_readElement o s c
    exact (hread.asksFor_or_eq (forward_readAtLevel o level) s' d).imp_left And.right
  ends := wellFounded_frames o
  messages _ := isMessageReader_iff o
  branches level s plural := by
    have hdescends : Descends (readBranch (readAtLevel o level) s plural) _ :=
      descends_readBranch (forward_readAtLevel o level)
    exact ⟨_, fun _ => hdescends.isLoop_iff,
      fun seen c => readBranches_eq_boundedLoop c.rest.length seen c⟩
  start _ := rfl
  depth _ _ h := h.length_le

/-- Two cases of it: an angle bracket that opens no tag is taken for text, and with one
level allowed the text of a tag is being read together with the whole message, and
fails. -/
theorem reading_progresses_at_limit :
    (∃ said location d,
      readElement (readAtLevel {} 1) {} .top (.start "<3 cats".toList) =
          .ok (some (.literal said location, d)) ∧
        said ≠ "" ∧ (Cursor.start "<3 cats".toList).Ahead d) ∧
    ∃ c, Active { maxNestingDepth := 0 } "<b>x</b>".toList
        [⟨1, ⟨true, false, true⟩, c⟩, ⟨0, .top, .start "<b>x</b>".toList⟩] ∧
      readAtLevel { maxNestingDepth := 0 } 1 ⟨true, false, true⟩ c =
        c.fail .exceededMaxNestingDepth c.here := by
  constructor
  · exact (reading_progresses {}).literal 1 .top _ '<' "3 cats".toList rfl
      ⟨by decide, by decide, by decide, by decide, by decide⟩
  · have hactive : Active { maxNestingDepth := 0 } "<b>x</b>".toList
        [⟨1, ⟨true, false, true⟩, (Cursor.start "<b>x</b>".toList).advance 3⟩,
          ⟨0, .top, .start "<b>x</b>".toList⟩] := by
      refine .enter .start (.mk (by decide) fun f => ?_)
      rfl
    refine ⟨_, hactive, ?_⟩
    rcases (reading_progresses { maxNestingDepth := 0 }).depth _ _ hactive with
      hle | ⟨f, outer, hstack, -, hfails⟩
    · exact absurd hle (by decide)
    · cases hstack
      exact hfails

end MessagePattern
