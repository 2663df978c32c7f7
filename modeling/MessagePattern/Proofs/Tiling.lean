/-
# Locations tile the message

Every location of a tree that was read is a part of the message, and the
locations of one text follow each other without a gap: those of a whole message
from its start to its end, those in a tag from behind the opening tag up to the
closing one, those in a branch from its opening brace to its closing one.  The
branches of one argument lie inside it and in order; between them there is room
for selectors.

A message that cannot be read gives a location as well, and it too is a part of
the message.
-/

import MessagePattern.Proofs.Faults

namespace MessagePattern

open Cursor

/-! ## What is said of a tree -/

mutual

/-- The location of an element, and all locations inside it, are where the text
of the message puts them. -/
def Element.Tiled (message : List Char) : Element → Prop
  | .literal _ l => l.Within message
  | .argument _ l => l.Within message
  | .number _ style l =>
    l.Within message ∧ ∀ k, style = some (.skeleton k) → k.location.Within message
  | .dateTime _ _ style l =>
    l.Within message ∧ ∀ k, style = some (.skeleton k) → k.location.Within message
  | .selector _ _ branches l =>
    l.Within message ∧ BranchesTiled message l.start branches l.stop
  | .pound l => l.Within message
  | .tag name children l =>
    l.Within message ∧ ∃ p q space space',
      (space.all isPatternSpace ∧
        Spans message l.start ('<' :: (name.toList ++ (space ++ ['>']))) p) ∧
      Tiles message p children q ∧
      (space'.all isPatternSpace ∧
        Spans message q ('<' :: '/' :: (name.toList ++ (space' ++ ['>']))) l.stop)

/-- The elements follow each other from the first point to the second. -/
def Tiles (message : List Char) : Position → List Element → Position → Prop
  | p, [], q => p = q
  | p, e :: es, q =>
    e.location.start = p ∧ e.Tiled message ∧ Tiles message e.location.stop es q

/-- The branches lie between the two points, each behind the one before it, and
the text of each fills the space between its braces. -/
def BranchesTiled (message : List Char) : Position → List (Branch Element) → Position → Prop
  | low, [], high => Location.Within message ⟨low, high⟩
  | low, ⟨_, value, l⟩ :: branches, high =>
    Location.Within message ⟨low, l.start⟩ ∧ l.Within message ∧
    (∃ p q, Spans message l.start ['{'] p ∧ Tiles message p value q ∧
      Spans message q ['}'] l.stop) ∧
    BranchesTiled message l.stop branches high

end

/-! ## Skeletons and tags -/

theorem location_of_numberStyle {o : ParseOptions} {text : List Char} {location : Location}
    {c : Cursor} {k : NumberSkeleton} (h : numberStyle o text location c = .ok (.skeleton k)) :
    k.location = location := by
  unfold numberStyle at h
  repeat' split at h
  all_goals cases h
  all_goals rfl

theorem location_of_dateTimeStyle {o : ParseOptions} {text : List Char}
    {location element : Location} {c : Cursor} {k : DateTimeSkeleton}
    (h : dateTimeStyle o text location element c = .ok (.skeleton k)) :
    k.location = location := by
  unfold dateTimeStyle at h
  repeat' split at h
  all_goals cases h
  all_goals rfl

/-- An opening tag is its name in angle brackets, with white space behind it. -/
theorem passes_of_opened {c body : Cursor} {text : List Char} {kind : ErrorKind}
    {location : Location} (hbegins : c.rest = '<' :: text)
    (hopened : c.bump.tagName.2.skipSpace.expect ['>'] kind location = .ok body) :
    ∃ space, space.all isPatternSpace ∧
      c.Passes ('<' :: (c.bump.tagName.1.toList ++ (space ++ ['>']))) body := by
  refine ⟨c.bump.tagName.2.rest.takeWhile isPatternSpace, List.all_takeWhile, ?_⟩
  exact (passes_bump hbegins).trans ((passes_tagName _).trans
    ((passes_skipSpace _).trans (.of_expect hopened)))

theorem passes_of_readClosingTag {name : String} {opening : Position} {c d : Cursor}
    (h : readClosingTag name opening c = .ok d) :
    ∃ space, space.all isPatternSpace ∧
      c.Passes ('<' :: '/' :: (name.toList ++ (space ++ ['>']))) d := by
  obtain ⟨slash, hslash, rest⟩ := bind_eq_ok h
  simp only at rest
  split at rest
  · cases rest
  split at rest
  · cases rest
  next hname =>
    rw [ne_eq, Classical.not_not] at hname
    refine ⟨slash.tagName.2.rest.takeWhile isPatternSpace, List.all_takeWhile, ?_⟩
    exact (Passes.of_expect hslash).trans ((hname ▸ passes_tagName slash).trans
      ((passes_skipSpace _).trans (.of_expect rest)))

/-! ## What is read tiles -/

/-- Nested text tiles what was read of it. -/
def NestedTiles (message : List Char) : NestedRelation :=
  fun _ c es d => c.Reaches d ∧ (c.IsIn message → Tiles message c.position es d.position)

section Rules

variable {message : List Char} {o : ParseOptions} {s : Scope}

-- The cursors `low` and `high` stand further out than the branches that are left, so that the
-- white space between two branches belongs to neither of them.
theorem BranchesRead.tiled {plural : Bool} {seen : List String} {c d : Cursor}
    {branches : List (Branch Element)}
    (h : BranchesRead (NestedTiles message) s plural seen c branches d) {low high : Cursor}
    (hlow : low.Reaches c) (hin : low.IsIn message) (hhigh : d.Reaches high) :
    BranchesTiled message low.position branches high.position := by
  induction h generalizing low with
  | nil seen c => exact (hlow.trans hhigh).within hin
  | @cons seen c opening body stop after d selector value branches selected fresh opened inner
      closed rest ih =>
      have hopening := hlow.trans
        ((reaches_of_readSelector selected).trans (reaches_skipSpace opening))
      have hopeningIn := hopening.isIn hin
      have hbody := Passes.of_expect opened
      have hclose := Passes.of_closeBrace closed
      have hstop := hbody.reaches.trans inner.1
      have hafter := hstop.trans hclose.reaches
      refine ⟨hopening.within hin, hafter.within hopeningIn, ⟨body.position, stop.position, ?_⟩,
        ih (reaches_skipSpace after) (hafter.isIn hopeningIn) hhigh⟩
      exact ⟨hbody.spans hopeningIn, inner.2 (hbody.isIn hopeningIn),
        hclose.spans (hstop.isIn hopeningIn)⟩

/-- An element is located where it was read. -/
theorem ElementRead.location {R : NestedRelation} {c d : Cursor} {e : Element}
    (h : ElementRead R o s c e d) : e.location = d.since c.position := by
  cases h <;> rfl

theorem ElementRead.tiled {c d : Cursor} {e : Element}
    (h : ElementRead (NestedTiles message) o s c e d) (hin : c.IsIn message) :
    e.Tiled message := by
  have hwithin : (d.since c.position).Within message := (h.reaches And.left).within hin
  cases h with
  | literal | argument | pound | selfClosing => exact hwithin
  | @number name typed styled d text style head read closed made =>
      refine ⟨hwithin, fun k hk => ?_⟩
      obtain ⟨text, location, rfl, hmade⟩ := made.exists_text hk
      rw [location_of_numberStyle hmade]
      exact (sees_style read).within (((reaches_bump c).trans head.reaches).isIn hin)
  | @dateTime kind name typed styled d text style head read closed made =>
      refine ⟨hwithin, fun k hk => ?_⟩
      obtain ⟨text, location, rfl, hmade⟩ := made.exists_text hk
      rw [location_of_dateTimeStyle hmade]
      exact (sees_style read).within (((reaches_bump c).trans head.reaches).isIn hin)
  | selector head separated counted read nonempty other closed =>
      refine ⟨hwithin, read.tiled ?_ hin (.of_closeBrace closed)⟩
      exact (reaches_bump c).trans (head.reaches.trans (reaches_of_separated separated counted))
  | @tag body stop d children tags begins opened inner closed =>
      obtain ⟨letter, text, hbegins, -⟩ := begins
      obtain ⟨space, hspace, hopening⟩ := passes_of_opened hbegins opened
      obtain ⟨space', hspace', hclosing⟩ := passes_of_readClosingTag closed
      refine ⟨hwithin, body.position, stop.position, space, space', ⟨hspace, ?_⟩, ?_, hspace', ?_⟩
      · exact hopening.spans hin
      · exact inner.2 (hopening.isIn hin)
      · exact hclosing.spans ((hopening.reaches.trans inner.1).isIn hin)

theorem ElementsRead.tiles {c d : Cursor} {es : List Element}
    (h : ElementsRead (NestedTiles message) o s c es d) (hin : c.IsIn message) :
    Tiles message c.position es d.position := by
  induction h with
  | nil c => rfl
  | @cons c d f e es first rest ih =>
      have hd := ih ((first.reaches And.left).isIn hin)
      rw [Tiles, first.location]
      exact ⟨rfl, first.tiled hin, hd⟩

end Rules

/-- What is read in a scope tiles what was read. -/
theorem readMessage_tiles (message : List Char) {o : ParseOptions} {budget : Nat} {s : Scope}
    {c d : Cursor} {es : List Element} (h : readMessage o budget s c = .ok (es, d)) :
    NestedTiles message s c es d :=
  readMessage_induction (P := fun _ => NestedTiles message)
    (fun _ _ _ _ _ read => ⟨read.reaches And.left, read.tiles⟩) h

/-- A whole message is read up to its end. -/
theorem rest_of_readAll {o : ParseOptions} {message : List Char} {es : List Element} {d : Cursor}
    (h : readAll o message = .ok (es, d)) : d.rest = [] :=
  (readMessage_succ_iff.mp h).2.eq_nil

/-- A message tells where everything in it is: either its elements tile it, from
its start to its end, or what is wrong with it is a part of it. -/
theorem parse_places (message : String) (o : ParseOptions) :
    match parse message o with
    | .ok elements => Tiles message.toList (.behind []) elements (.behind message.toList)
    | .error e => e.location.Within message.toList := by
  have hstart := isIn_start message.toList
  unfold parse
  cases hread : readAll o message.toList with
  | error f => exact (faultsSeen_readMessage o _ _ _ f hread).within hstart
  | ok outcome =>
      obtain ⟨elements, d⟩ := outcome
      obtain ⟨hreaches, htiles⟩ := readMessage_tiles message.toList hread
      obtain ⟨before, hmessage, hposition⟩ := hreaches.isIn hstart
      rw [rest_of_readAll hread, List.append_nil] at hmessage
      rw [← hmessage] at hposition
      show Tiles message.toList (.behind []) elements (.behind message.toList)
      rw [← hposition]
      exact htiles hstart

end MessagePattern
