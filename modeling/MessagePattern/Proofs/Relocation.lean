/-
# Positions counted from elsewhere

When a part of a message is taken for a message of its own, everything in it
moves: offsets and lines are counted from where the part began, and so are the
columns of its first line, while those of its other lines stay as they are.
`Position.rebase` is this change for one position, and `relocate` makes a
change of positions everywhere in a tree.

The text of a part is cut out of the message by offsets alone.
-/

import MessagePattern.Proofs.Places
import MessagePattern.Element

namespace MessagePattern

/-! ## Positions -/

namespace Position

/-- A position that is not before `origin`, counted from there. -/
def rebase (origin p : Position) : Position where
  offset := p.offset - origin.offset
  line := p.line - origin.line + 1
  column := if p.line = origin.line then p.column - origin.column + 1 else p.column

/-- Positions in the order of the text. -/
structure Precedes (origin p : Position) : Prop where
  offset : origin.offset ≤ p.offset
  line : origin.line ≤ p.line
  column : p.line = origin.line → origin.column ≤ p.column

theorem Precedes.next {origin p : Position} (h : Precedes origin p) (c : Char) :
    Precedes origin (p.next c) := by
  obtain ⟨hoffset, hline, hcolumn⟩ := h
  unfold Position.next
  split
  · exact ⟨Nat.le_add_right_of_le hoffset, Nat.le_succ_of_le hline, fun hsame => by
      simp only at hsame
      omega⟩
  · exact ⟨Nat.le_add_right_of_le hoffset, hline, fun hsame => Nat.le_succ_of_le (hcolumn hsame)⟩

/-- Counting from elsewhere and going on commute. -/
theorem Precedes.rebase_next {origin p : Position} (h : Precedes origin p) (c : Char) :
    origin.rebase (p.next c) = (origin.rebase p).next c := by
  obtain ⟨hoffset, hline, hcolumn⟩ := h
  unfold Position.next rebase
  by_cases hc : c = '\n'
  · simp only [if_pos hc, Position.mk.injEq]
    refine ⟨by omega, by omega, if_neg (by omega)⟩
  · simp only [if_neg hc, Position.mk.injEq]
    refine ⟨by omega, trivial, ?_⟩
    split
    · next hsame =>
        have hle := hcolumn hsame
        omega
    · rfl

theorem Precedes.rebase_after {origin p : Position} (h : Precedes origin p)
    (text : List Char) : origin.rebase (p.after text) = (origin.rebase p).after text := by
  induction text generalizing p with
  | nil => rfl
  | cons c text ih => rw [after_cons, ih (h.next c), h.rebase_next, after_cons]

/-- What is read from a point on is counted from there as if it were a message. -/
theorem rebase_after (p : Position) (text : List Char) :
    p.rebase (p.after text) = start.after text := by
  have hself : p.rebase p = start := by simp [rebase, start]
  have hprecedes : Precedes p p := ⟨Nat.le_refl _, Nat.le_refl _, fun _ => Nat.le_refl _⟩
  rw [hprecedes.rebase_after, hself]

end Position

/-! ## Trees -/

/-- A location with both of its ends moved. -/
def Location.map (f : Position → Position) (l : Location) : Location := ⟨f l.start, f l.stop⟩

/-- A number style with the location of its skeleton moved. -/
def relocateNumberStyle (f : Position → Position) : Style NumberSkeleton → Style NumberSkeleton
  | .text name => .text name
  | .skeleton k => .skeleton { k with location := k.location.map f }

/-- A date or time style with the location of its skeleton moved. -/
def relocateDateTimeStyle (f : Position → Position) :
    Style DateTimeSkeleton → Style DateTimeSkeleton
  | .text name => .text name
  | .skeleton k => .skeleton { k with location := k.location.map f }

mutual

/-- An element with all of its positions moved. -/
def Element.relocate (f : Position → Position) : Element → Element
  | .literal text l => .literal text (l.map f)
  | .argument name l => .argument name (l.map f)
  | .number name style l => .number name (style.map (relocateNumberStyle f)) (l.map f)
  | .dateTime kind name style l =>
    .dateTime kind name (style.map (relocateDateTimeStyle f)) (l.map f)
  | .selector kind name branches l => .selector kind name (relocateBranches f branches) (l.map f)
  | .pound l => .pound (l.map f)
  | .tag name children l => .tag name (relocateElements f children) (l.map f)

/-- Elements with all of their positions moved. -/
def relocateElements (f : Position → Position) : List Element → List Element
  | [] => []
  | e :: es => e.relocate f :: relocateElements f es

/-- Branches with all of their positions moved. -/
def relocateBranches (f : Position → Position) : List (Branch Element) → List (Branch Element)
  | [] => []
  | ⟨selector, value, l⟩ :: branches =>
    ⟨selector, relocateElements f value, l.map f⟩ :: relocateBranches f branches

end

theorem map_selector_relocateBranches (f : Position → Position)
    (branches : List (Branch Element)) :
    (relocateBranches f branches).map Branch.selector = branches.map Branch.selector := by
  induction branches with
  | nil => rfl
  | cons b branches ih => simp [relocateBranches, ih]

/-! ## Parts of a message -/

/-- What is left of a text behind its first `n` code units. -/
def dropUnits (n : Nat) : List Char → List Char
  | [] => []
  | c :: text => if n = 0 then c :: text else dropUnits (n - utf16Width c) text

/-- The first `n` code units of a text. -/
def takeUnits (n : Nat) : List Char → List Char
  | [] => []
  | c :: text => if n = 0 then [] else c :: takeUnits (n - utf16Width c) text

/-- The text at a location of a message. -/
def Location.slice (l : Location) (message : String) : String :=
  String.ofList (takeUnits l.length (dropUnits l.start.offset message.toList))

theorem dropUnits_append (before text : List Char) :
    dropUnits (utf16Length before) (before ++ text) = text := by
  induction before with
  | nil => cases text <;> simp [dropUnits, utf16Length]
  | cons c before ih =>
      have hpos := utf16Width_pos c
      have hlength := utf16Length_cons c before
      rw [List.cons_append, dropUnits, if_neg (by omega), hlength, Nat.add_sub_cancel_left, ih]

theorem takeUnits_append (text after : List Char) :
    takeUnits (utf16Length text) (text ++ after) = text := by
  induction text with
  | nil => cases after <;> simp [takeUnits, utf16Length]
  | cons c text ih =>
      have hpos := utf16Width_pos c
      have hlength := utf16Length_cons c text
      rw [List.cons_append, takeUnits, if_neg (by omega), hlength, Nat.add_sub_cancel_left, ih]

/-- A location holds the text that it spans. -/
theorem Spans.slice_eq {message : String} {l : Location} {text : List Char}
    (h : Spans message.toList l.start text l.stop) : l.slice message = String.ofList text := by
  obtain ⟨before, after, hmessage, hstart, hstop⟩ := h
  have hlength : l.length = utf16Length text := by
    rw [Location.length, hstart, hstop]
    show utf16Length (before ++ text) - utf16Length before = utf16Length text
    rw [utf16Length_append, Nat.add_sub_cancel_left]
  have hoffset : l.start.offset = utf16Length before := by rw [hstart]; rfl
  rw [Location.slice, hlength, hoffset, hmessage, dropUnits_append, takeUnits_append]

end MessagePattern
