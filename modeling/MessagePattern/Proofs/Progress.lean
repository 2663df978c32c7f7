/-
# Reading goes forward

Every rule of reading leads from its cursor to one that is met by reading on, if
nested text does.  So positions that are taken in the course of reading come in
the order of the text.  Every element takes at least one scalar, and every branch
at least its opening brace; this is why the bounds on their number are never met.
-/

import MessagePattern.Proofs.Derivation
import MessagePattern.Proofs.SafeInteger

namespace MessagePattern

open Cursor

theorem reaches_of_readInteger {absent excessive : ErrorKind} {c d : Cursor} {n : Int}
    (h : readInteger absent excessive c = .ok (n, d)) : c.Reaches d := by
  obtain ⟨text, -, -, -, rfl⟩ := readInteger_eq_ok h
  exact reaches_advance _ c

/-- Where there is no offset nothing is passed, and otherwise the word for it. -/
theorem readOffset_word {plural : Bool} {c d : Cursor} {offset : Int}
    (h : readOffset plural c = .ok (offset, d)) : d = c ∨ c.identifier.2.Reaches d := by
  unfold readOffset at h
  simp only at h
  split at h
  · obtain ⟨colon, hcolon, rest⟩ := bind_eq_ok h
    obtain ⟨⟨n, stop⟩, hinteger, rest⟩ := bind_eq_ok rest
    cases rest
    right
    apply (Reaches.of_expect hcolon).trans
    apply (reaches_skipSpace colon).trans
    exact (reaches_of_readInteger hinteger).trans (reaches_skipSpace stop)
  · cases h
    exact .inl rfl

theorem reaches_of_readOffset {plural : Bool} {c d : Cursor} {offset : Int}
    (h : readOffset plural c = .ok (offset, d)) : c.Reaches d := by
  rcases readOffset_word h with rfl | hword
  · exact .refl d
  · exact (reaches_identifier c).trans hword

theorem reaches_of_readSelector {plural : Bool} {c d : Cursor} {selector : String}
    (h : readSelector plural c = .ok (some (selector, d))) : c.Reaches d := by
  unfold readSelector at h
  simp only at h
  split at h
  · cases h
    exact reaches_identifier c
  split at h
  · split at h
    · cases h
    · next equals hequals =>
        obtain ⟨⟨n, stop⟩, hinteger, rest⟩ := bind_eq_ok h
        cases rest
        obtain ⟨-, rfl⟩ := skip?_eq_some hequals
        exact (reaches_advance _ c).trans (reaches_of_readInteger hinteger)
  · cases h

/-- A selector goes at least as far as the word that it begins with. -/
theorem reaches_identifier_of_readSelector {plural : Bool} {c d : Cursor} {selector : String}
    (h : readSelector plural c = .ok (some (selector, d))) : c.identifier.2.Reaches d := by
  by_cases hne : c.identifier.1 = ""
  · -- Without a word nothing was passed yet.
    have hpasses := passes_identifier c
    rw [hne] at hpasses
    have hsame : c.identifier.2 = c := hpasses.stop
    rw [hsame]
    exact reaches_of_readSelector h
  · simp only [readSelector, ne_eq, hne, not_false_eq_true, if_true] at h
    cases h
    exact .refl _

theorem reaches_of_readStyleText {c d : Cursor} {text : List Char}
    (h : readStyleText c = .ok (text, d)) : c.Reaches d := by
  unfold readStyleText at h
  split at h
  · cases h
    exact reaches_advance _ c
  · cases h

/-- A style is located where it was read, with the white space behind it. -/
theorem readStyle_located {c d : Cursor} {text : List Char} {location : Location}
    (h : readStyle c = .ok ((text, location), d)) :
    c.Reaches d ∧ location = d.since c.position := by
  obtain ⟨⟨raw, stop⟩, hraw, rest⟩ := bind_eq_ok h
  simp only at rest
  split at rest
  · cases rest
  · cases rest
    exact ⟨reaches_of_readStyleText hraw, rfl⟩

/-- Behind the type of an argument there is no style, or there is one behind a
comma. -/
theorem readOptionalStyle_cases {c d : Cursor} {text : Option (List Char × Location)}
    (h : readOptionalStyle c = .ok (text, d)) :
    (text = none ∧ c.skipSpace.skip? [','] = none ∧ d = c.skipSpace) ∨
      ∃ style location comma, text = some (style, location) ∧
        c.skipSpace.skip? [','] = some comma ∧
        readStyle comma.skipSpace = .ok ((style, location), d) := by
  unfold readOptionalStyle at h
  simp only at h
  split at h
  · next hcomma =>
      cases h
      exact .inl ⟨rfl, hcomma, rfl⟩
  · next comma hcomma =>
      obtain ⟨⟨⟨style, location⟩, stop⟩, hstyle, rest⟩ := bind_eq_ok h
      cases rest
      exact .inr ⟨style, location, comma, rfl, hcomma, hstyle⟩

/-- From behind the type of an argument to its style. -/
theorem reaches_style {c comma : Cursor} (h : c.skipSpace.skip? [','] = some comma) :
    c.Reaches comma.skipSpace := by
  apply (reaches_skipSpace c).trans
  exact (Passes.of_skip? h).reaches.trans (reaches_skipSpace comma)

theorem reaches_of_readOptionalStyle {c d : Cursor} {text : Option (List Char × Location)}
    (h : readOptionalStyle c = .ok (text, d)) : c.Reaches d := by
  rcases readOptionalStyle_cases h with ⟨-, -, rfl⟩ | ⟨_, _, comma, -, hcomma, hstyle⟩
  · exact reaches_skipSpace c
  · exact (reaches_style hcomma).trans (readStyle_located hstyle).1

theorem reaches_of_readClosingTag {name : String} {opening : Position} {c d : Cursor}
    (h : readClosingTag name opening c = .ok d) : c.Reaches d := by
  obtain ⟨slash, hslash, rest⟩ := bind_eq_ok h
  simp only at rest
  split at rest
  · cases rest
  split at rest
  · cases rest
  · apply (Reaches.of_expect hslash).trans
    apply (reaches_tagName slash).trans
    exact (reaches_skipSpace _).trans (.of_expect rest)

theorem NameRead.reaches {c d : Cursor} {name : String} (h : NameRead c name d) :
    c.bump.Reaches d := by
  rw [h.stop]
  exact (reaches_skipSpace _).trans ((reaches_identifier _).trans (reaches_skipSpace _))

theorem TypeRead.reaches {c d : Cursor} {name : String} {type : ArgumentType}
    (h : TypeRead c name type d) : c.bump.Reaches d := by
  obtain ⟨named, hname, -, -, rfl⟩ := h
  apply hname.reaches.trans
  apply (reaches_bump named).trans
  exact (reaches_skipSpace _).trans (reaches_identifier _)

theorem TypeRead.brace {c d : Cursor} {name : String} {type : ArgumentType}
    (h : TypeRead c name type d) : ∃ text, c.rest = '{' :: text := by
  obtain ⟨named, hname, -⟩ := h
  exact hname.brace

/-- From the type of a selector to its first branch. -/
theorem reaches_of_separated {plural : Bool} {typed comma first : Cursor} {kind : ErrorKind}
    {location : Location} {offset : Int}
    (hcomma : typed.skipSpace.expect [','] kind location = .ok comma)
    (hoffset : readOffset plural comma.skipSpace = .ok (offset, first)) : typed.Reaches first := by
  apply (reaches_skipSpace typed).trans
  apply (Reaches.of_expect hcomma).trans
  exact (reaches_skipSpace comma).trans (reaches_of_readOffset hoffset)

/-- From the name of an opening tag to the text in the tag. -/
theorem reaches_of_opened {c body : Cursor} {kind : ErrorKind} {location : Location}
    (h : c.tagName.2.skipSpace.expect ['>'] kind location = .ok body) : c.Reaches body := by
  apply (reaches_tagName c).trans
  exact (reaches_skipSpace _).trans (.of_expect h)

section Rules

variable {R : NestedRelation} {o : ParseOptions} {s : Scope}

/-- Branches end where reading on from their start leads. -/
theorem BranchesRead.reaches (hR : ∀ {s c es d}, R s c es d → c.Reaches d) {plural : Bool}
    {seen : List String} {c d : Cursor} {branches : List (Branch Element)}
    (h : BranchesRead R s plural seen c branches d) : c.Reaches d := by
  induction h with
  | nil seen c => exact .refl c
  | cons selected fresh opened inner closed rest ih =>
      apply (reaches_of_readSelector selected).trans
      apply (reaches_skipSpace _).trans
      apply (Reaches.of_expect opened).trans
      apply (hR inner).trans
      apply (Reaches.of_closeBrace closed).trans
      exact (reaches_skipSpace _).trans ih

/-- Branches go at least as far as the word that the first of them begins with. -/
theorem BranchesRead.reaches_word (hR : ∀ {s c es d}, R s c es d → c.Reaches d) {plural : Bool}
    {seen : List String} {c d : Cursor} {branches : List (Branch Element)}
    (h : BranchesRead R s plural seen c branches d) (hne : branches ≠ []) :
    c.identifier.2.Reaches d := by
  cases h with
  | nil => exact absurd rfl hne
  | cons selected fresh opened inner closed rest =>
      apply (reaches_identifier_of_readSelector selected).trans
      apply (reaches_skipSpace _).trans
      apply (Reaches.of_expect opened).trans
      apply (hR inner).trans
      apply (Reaches.of_closeBrace closed).trans
      exact (reaches_skipSpace _).trans (rest.reaches hR)

/-- An element ends where reading on from its start leads. -/
theorem ElementRead.reaches (hR : ∀ {s c es d}, R s c es d → c.Reaches d) {c d : Cursor}
    {e : Element} (h : ElementRead R o s c e d) : c.Reaches d := by
  cases h with
  | literal begins => exact reaches_advance _ c
  | argument named closed => exact (reaches_bump c).trans (named.reaches.trans (reaches_bump _))
  | number head read closed made | dateTime head read closed made =>
      apply (reaches_bump c).trans
      apply head.reaches.trans
      exact (reaches_of_readOptionalStyle read).trans (.of_closeBrace closed)
  | selector head separated counted read nonempty other closed =>
      apply (reaches_bump c).trans
      apply head.reaches.trans
      apply (reaches_of_separated separated counted).trans
      exact (read.reaches hR).trans (.of_closeBrace closed)
  | pound plural sign => exact reaches_bump c
  | selfClosing tags begins closed =>
      obtain ⟨-, rfl⟩ := skip?_eq_some closed
      apply (reaches_bump c).trans
      apply (reaches_tagName _).trans
      exact (reaches_skipSpace _).trans (reaches_advance _ _)
  | tag tags begins opened inner closed =>
      apply (reaches_bump c).trans
      apply (reaches_of_opened opened).trans
      exact (hR inner).trans (reaches_of_readClosingTag closed)

/-- An element takes at least one scalar. -/
theorem ElementRead.length_lt (hR : ∀ {s c es d}, R s c es d → c.Reaches d) {c d : Cursor}
    {e : Element} (h : ElementRead R o s c e d) : d.rest.length < c.rest.length := by
  have hbump {ch : Char} {text : List Char} (hc : c.rest = ch :: text) (hd : c.bump.Reaches d) :
      d.rest.length < c.rest.length := by
    have hle := hd.length_le
    rw [rest_bump_cons hc] at hle
    rw [hc]
    exact Nat.lt_succ_of_le hle
  cases h with
  | literal begins =>
      have hne : c.rest ≠ [] := fun hnil => begins (hnil ▸ trivial)
      have hsaid := List.length_pos_iff.mpr (literalText_ne_nil begins)
      have hle := length_literalText_le o s false c.rest
      have hpos := List.length_pos_iff.mpr hne
      show (c.advance (literalText o s false c.rest).2).rest.length < c.rest.length
      rw [rest_advance, List.length_drop]
      omega
  | argument named closed =>
      obtain ⟨text, hbrace⟩ := named.brace
      exact hbump hbrace (named.reaches.trans (reaches_bump _))
  | number head read closed made | dateTime head read closed made =>
      obtain ⟨text, hbrace⟩ := head.brace
      exact hbump hbrace (head.reaches.trans
        ((reaches_of_readOptionalStyle read).trans (.of_closeBrace closed)))
  | selector head separated counted read nonempty other closed =>
      obtain ⟨text, hbrace⟩ := head.brace
      exact hbump hbrace (head.reaches.trans ((reaches_of_separated separated counted).trans
        ((read.reaches hR).trans (.of_closeBrace closed))))
  | pound plural sign =>
      obtain ⟨text, hsign⟩ := sign
      exact hbump hsign (.refl _)
  | selfClosing tags begins closed =>
      obtain ⟨letter, text, hbegins, -⟩ := begins
      exact hbump hbegins ((reaches_tagName _).trans
        ((reaches_skipSpace _).trans (Passes.of_skip? closed).reaches))
  | tag tags begins opened inner closed =>
      obtain ⟨letter, text, hbegins, -⟩ := begins
      exact hbump hbegins ((reaches_of_opened opened).trans
        ((hR inner).trans (reaches_of_readClosingTag closed)))

theorem ElementsRead.reaches (hR : ∀ {s c es d}, R s c es d → c.Reaches d) {c d : Cursor}
    {es : List Element} (h : ElementsRead R o s c es d) : c.Reaches d := by
  induction h with
  | nil c => exact .refl c
  | cons first rest ih => exact (first.reaches hR).trans ih

end Rules

section Nested

variable {inner : NestedReader} (hinner : ∀ {s c es d}, inner s c = .ok (es, d) → c.Reaches d)

include hinner

theorem reaches_of_readFragment {s : Scope} {plural : Bool} {selector : String} {c d : Cursor}
    {branch : Branch Element} (h : readFragment inner s plural selector c = .ok (branch, d)) :
    c.Reaches d := by
  obtain ⟨body, hbody, rest⟩ := bind_eq_ok h
  obtain ⟨⟨value, stop⟩, hvalue, rest⟩ := bind_eq_ok rest
  obtain ⟨after, hafter, rest⟩ := bind_eq_ok rest
  cases rest
  apply (reaches_skipSpace c).trans
  apply (Reaches.of_expect hbody).trans
  apply (hinner hvalue).trans
  exact (Reaches.of_closeBrace hafter).trans (reaches_skipSpace after)

theorem reaches_of_readBranches {s : Scope} {plural : Bool} {bound : Nat} {seen : List String}
    {c d : Cursor} {branches : List (Branch Element)}
    (h : readBranches inner s plural bound seen c = .ok (branches, d)) : c.Reaches d :=
  (branchesRead_of_ok (R := fun s c es d => inner s c = .ok (es, d))
    (fun _ _ _ _ => id) h).reaches hinner

theorem reaches_of_readAllBranches {o : ParseOptions} {s : Scope} {plural : Bool} {c d : Cursor}
    {branches : List (Branch Element)}
    (h : readAllBranches inner o s plural c = .ok (branches, d)) : c.Reaches d := by
  obtain ⟨⟨found, last⟩, hfound, rest⟩ := bind_eq_ok h
  simp only at rest
  split at rest
  · cases rest
  split at rest
  · cases rest
  · cases rest
    exact reaches_of_readBranches hinner hfound

end Nested

/-- Reading nested text goes forward. -/
theorem reaches_of_readMessage {o : ParseOptions} {budget : Nat} {s : Scope} {c d : Cursor}
    {es : List Element} (h : readMessage o budget s c = .ok (es, d)) : c.Reaches d :=
  readMessage_induction (P := fun _ _ c _ d => c.Reaches d)
    (fun _ _ _ _ _ read => read.reaches id) h

end MessagePattern
