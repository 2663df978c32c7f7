/-
# The rules of reading are exact

A derivation says how an element was read.  Here is the converse: whatever the
rules derive is what the readers give.  So a reading can be studied, and changed
into another reading, as a derivation, and `readMessage_succ_iff` turns the
outcome back into one of the reader.

Of the conditions under which a reader goes on or stops, the rules mention only
those that matter to what was read.  The others follow: where a closing brace is
found there is no further selector, and a bound on the number of elements or
branches is never met, since each of them takes a scalar.
-/

import MessagePattern.Proofs.Progress

namespace MessagePattern

/-- What a reader of nested text gives, as a relation. -/
def NestedReader.Gives (inner : NestedReader) : NestedRelation :=
  fun s c es d => inner s c = .ok (es, d)

/-! ## Where text is over -/

/-- What may stand behind the text of a scope. -/
inductive Closes (o : ParseOptions) (s : Scope) : List Char → Prop
  | message : Closes o s []
  | branch (nested : s.nested = true) (tail : List Char) : Closes o s ('}' :: tail)
  | tag (inTag : s.inTag = true) (tags : o.ignoreTag = false) (tail : List Char) :
      Closes o s ('<' :: '/' :: tail)

theorem Closes.endsLiteral {o : ParseOptions} {s : Scope} {tail : List Char}
    (h : Closes o s tail) : EndsLiteral o s tail := by
  cases h with
  | message => trivial
  | branch nested tail => exact nested
  | tag inTag tags tail => simp [EndsLiteral, Scope.endsLiteral, tags, isTagStart]

theorem Closes.readElement {inner : NestedReader} {o : ParseOptions} {s : Scope}
    {tail : List Char} (h : Closes o s tail) {c : Cursor} (hc : c.rest = tail) :
    readElement inner o s c = .ok none := by
  cases h with
  | message => simp [MessagePattern.readElement, hc]
  | branch nested tail => simp [MessagePattern.readElement, hc, nested]
  | tag inTag tags tail => simp [MessagePattern.readElement, hc, tags, inTag]

theorem Closes.readElements {inner : NestedReader} {o : ParseOptions} {s : Scope}
    {tail : List Char} (h : Closes o s tail) (bound : Nat) {c : Cursor} (hc : c.rest = tail) :
    readElements inner o s bound c = .ok ([], c) := by
  cases bound with
  | zero => rfl
  | succ bound =>
      rw [MessagePattern.readElements, h.readElement hc]
      rfl

/-- A message as a whole ends nowhere but at its end. -/
theorem Closes.eq_nil {o : ParseOptions} {tail : List Char} (h : Closes o .top tail) :
    tail = [] := by
  cases h with
  | message => rfl
  | branch nested tail => cases nested
  | tag inTag tags tail => cases inTag

/-- Where no element is found, the text of the scope is over. -/
theorem closes_of_readElement {inner : NestedReader} {o : ParseOptions} {s : Scope} {c : Cursor}
    (h : readElement inner o s c = .ok none) : Closes o s c.rest := by
  unfold readElement at h
  split at h
  · next hrest => exact hrest ▸ .message
  · next ch text hrest =>
      split at h
      · obtain ⟨pair, -, hpair⟩ := map_eq_ok h
        cases hpair
      split at h
      · next hclose => exact hrest ▸ hclose.1 ▸ .branch hclose.2 text
      split at h
      · cases h
      split at h
      · next hslash =>
          split at h
          · next hinTag =>
              obtain ⟨rfl, htags, hhead⟩ := hslash
              obtain ⟨tail, rfl⟩ := List.head?_eq_some_iff.mp hhead
              exact hrest ▸ .tag hinTag (by simpa using htags) tail
          · cases h
      split at h
      · obtain ⟨pair, -, hpair⟩ := map_eq_ok h
        cases hpair
      · cases h

/-! ## The readers that an element is handed to -/

section Dispatch

variable (inner : NestedReader) (o : ParseOptions) (s : Scope) {c : Cursor}

theorem readElement_of_brace {text : List Char} (h : c.rest = '{' :: text) :
    readElement inner o s c = some <$> readArgument inner o s c := by
  simp [readElement, h]

theorem readElement_of_letter (htags : o.ignoreTag = false) {text : List Char}
    (h : c.rest = '<' :: text) (hletter : text.head?.any isTagLetter = true) :
    readElement inner o s c = some <$> readTag inner s c := by
  have hslash : text.head? ≠ some '/' := by
    intro heq
    rw [heq] at hletter
    cases hletter
  simp [readElement, h, htags, hslash, hletter]

/-- Where text does not end a literal, a literal begins. -/
theorem readElement_of_text (h : ¬ EndsLiteral o s c.rest) :
    readElement inner o s c = .ok (some (readLiteral o s c)) := by
  cases hrest : c.rest with
  | nil => exact absurd (hrest ▸ trivial) h
  | cons ch text =>
      rw [hrest] at h
      simp only [EndsLiteral, Scope.endsLiteral] at h
      have hbrace : ch ≠ '{' := by
        rintro rfl
        simp at h
      have hclose : ¬ (ch = '}' ∧ s.nested = true) := by
        rintro ⟨rfl, hnested⟩
        simp [hnested] at h
      have hpound : ¬ (ch = '#' ∧ s.plural = true) := by
        rintro ⟨rfl, hplural⟩
        simp [hplural] at h
      have hslash : ¬ (ch = '<' ∧ (!o.ignoreTag) = true ∧ text.head? = some '/') := by
        rintro ⟨rfl, htags, hhead⟩
        simp [htags, hhead, isTagStart] at h
      have hletter : ¬ (ch = '<' ∧ (!o.ignoreTag) = true ∧ text.head?.any isTagLetter = true) := by
        rintro ⟨rfl, htags, hhead⟩
        cases text with
        | nil => cases hhead
        | cons letter text => simp_all [isTagStart]
      simp only [readElement, hrest, if_neg hbrace, if_neg hclose, if_neg hpound, if_neg hslash,
        if_neg hletter]

end Dispatch

/-! ## Arguments -/

section Arguments

variable {inner : NestedReader} {o : ParseOptions} {s : Scope} {c d : Cursor} {name : String}

/-- A name that is not empty begins with an identifier character. -/
theorem head?_of_identifier (h : c.identifier.1 ≠ "") :
    c.rest.head?.any isIdentifierChar = true := by
  rw [← Bool.not_eq_false]
  exact fun hnone => h (Cursor.identifier_eq_empty hnone)

theorem readArgument_of_named (h : NameRead c name d) :
    readArgument inner o s c = readArgumentTail inner o s name c.position d := by
  have hhead := head?_of_identifier (h.identifier.symm ▸ h.nonempty)
  cases hrest : c.bump.skipSpace.rest with
  | nil => simp [hrest] at hhead
  | cons ch text =>
      have hch : ch ≠ '}' := by
        rintro rfl
        have hnot : isIdentifierChar '}' = true := by simpa [hrest] using hhead
        exact absurd hnot (by decide)
      simp only [readArgument, hrest, if_neg hch, h.identifier, if_neg h.nonempty, h.stop]

/-- Behind its type an argument goes on as the type says. -/
def readTyped (inner : NestedReader) (o : ParseOptions) (s : Scope) (name : String)
    (opening : Position) (c : Cursor) : ArgumentType → Except Failure (Element × Cursor)
  | .number => readNumber o name opening c
  | .dateTime kind => readDateTime o kind name opening c
  | .selector plural => readSelectorArgument inner o s plural name opening c

theorem readArgument_of_typed {type : ArgumentType} (h : TypeRead c name type d) :
    readArgument inner o s c = readTyped inner o s name c.position d type := by
  obtain ⟨named, hname, ⟨text, hcomma⟩, htype, rfl⟩ := h
  have hword : named.bump.skipSpace.identifier.1 ≠ "" := by
    intro hempty
    rw [hempty] at htype
    cases htype
  have hhead := head?_of_identifier hword
  have hne : named.bump.skipSpace.rest.isEmpty = false := by
    cases hrest : named.bump.skipSpace.rest with
    | nil => simp [hrest] at hhead
    | cons ch text => rfl
  have htail : readArgumentTail inner o s name c.position named =
      readTypedArgument inner o s name c.position named.bump.skipSpace := by
    simp [readArgumentTail, hcomma, hne]
  rw [readArgument_of_named hname, htail]
  simp only [readTypedArgument, if_neg hword, htype]
  cases type <;> rfl

end Arguments

/-! ## Branches -/

/-- Where there are no more branches, no selector is found. -/
theorem readSelector_of_brace {plural : Bool} {tail : List Char} {c : Cursor}
    (h : c.rest = '}' :: tail) : readSelector plural c = .ok none := by
  have hread : c.identifier.1 = "" := Cursor.identifier_eq_empty (by rw [h]; rfl)
  have hskip : c.skip? ['='] = none := Cursor.skip?_eq_none_of_head h (by decide)
  simp [readSelector, hread, hskip]

theorem readBranches_of_none {inner : NestedReader} {s : Scope} {plural : Bool} (bound : Nat)
    (seen : List String) {c : Cursor} (h : readSelector plural c = .ok none) :
    readBranches inner s plural bound seen c = .ok ([], c) := by
  cases bound with
  | zero => rfl
  | succ bound =>
      rw [readBranches, h]
      rfl

/-- Reading a branch with a new selector, and the branches behind it. -/
theorem readBranches_of_selector {inner : NestedReader} {s : Scope} {plural : Bool}
    {bound : Nat} {seen : List String} {selector : String} {c opening : Cursor}
    (h : readSelector plural c = .ok (some (selector, opening))) (hfresh : selector ∉ seen) :
    readBranches inner s plural (bound + 1) seen c =
      (do
        let first ← readFragment inner s plural selector opening
        let rest ← readBranches inner s plural bound (selector :: seen) first.2
        .ok (first.1 :: rest.1, rest.2)) := by
  rw [readBranches, h]
  simp [bind, Except.bind, hfresh]

section Converse

variable {inner : NestedReader} {o : ParseOptions} {s : Scope}
  (hinner : ∀ {s c es d}, inner.Gives s c es d → c.Reaches d)

include hinner

theorem BranchesRead.readBranches {plural : Bool} {seen : List String} {c d : Cursor}
    {branches : List (Branch Element)} (h : BranchesRead inner.Gives s plural seen c branches d)
    (hstop : readSelector plural d = .ok none) {bound : Nat} (hbound : c.rest.length ≤ bound) :
    readBranches inner s plural bound seen c = .ok (branches, d) := by
  induction h generalizing bound with
  | nil seen c => exact readBranches_of_none bound seen hstop
  | @cons seen c opening body stop after d selector value branches selected fresh opened inner'
      closed rest ih =>
      -- The opening brace alone makes what is left shorter.
      have hopening := ((reaches_of_readSelector selected).trans
        (Cursor.reaches_skipSpace _)).length_le
      have hbrace := congrArg List.length (Cursor.Passes.of_expect opened).rest
      have hafter := ((hinner inner').trans
        ((Cursor.Reaches.of_closeBrace closed).trans (Cursor.reaches_skipSpace _))).length_le
      simp only [List.length_append, List.length_cons, List.length_nil] at hbrace
      cases bound with
      | zero => omega
      | succ bound =>
          have hbound' : after.skipSpace.rest.length ≤ bound := Nat.le_of_lt_succ (by omega)
          have hrest := ih hstop hbound'
          have hfragment : readFragment inner s plural selector opening =
              .ok (⟨selector, value, after.since opening.skipSpace.position⟩,
                after.skipSpace) := by
            have hvalue : inner (s.branch plural) body = .ok (value, stop) := inner'
            simp [readFragment, bind, Except.bind, opened, hvalue, closed]
          rw [readBranches_of_selector selected fresh, hfragment]
          simp [bind, Except.bind, hrest]

/-- What is derived of an element is what its reader gives. -/
theorem ElementRead.readElement {c d : Cursor} {e : Element}
    (h : ElementRead inner.Gives o s c e d) : readElement inner o s c = .ok (some (e, d)) := by
  cases h with
  | literal begins => exact readElement_of_text inner o s begins
  | argument named closed =>
      obtain ⟨text, hbrace⟩ := named.brace
      obtain ⟨tail, hclose⟩ := closed
      rw [readElement_of_brace inner o s hbrace, readArgument_of_named named]
      simp [readArgumentTail, hclose, Functor.map, Except.map]
  | @number name typed styled d text style head read closed made =>
      obtain ⟨tail, hbrace⟩ := head.brace
      rw [readElement_of_brace inner o s hbrace, readArgument_of_typed head]
      match text, made with
      | none, hstyle =>
          have hnone : style = none := hstyle
          simp [readTyped, readNumber, bind, Except.bind, read, closed, hnone, Functor.map,
            Except.map]
      | some (text, location), ⟨k, hk, hstyle⟩ =>
          simp [readTyped, readNumber, bind, Except.bind, read, closed, hk, hstyle, Functor.map,
            Except.map]
  | @dateTime kind name typed styled d text style head read closed made =>
      obtain ⟨tail, hbrace⟩ := head.brace
      rw [readElement_of_brace inner o s hbrace, readArgument_of_typed head]
      match text, made with
      | none, hstyle =>
          have hnone : style = none := hstyle
          simp [readTyped, readDateTime, bind, Except.bind, read, closed, hnone, Functor.map,
            Except.map]
      | some (text, location), ⟨k, hk, hstyle⟩ =>
          simp [readTyped, readDateTime, bind, Except.bind, read, closed, hk, hstyle, Functor.map,
            Except.map]
  | @selector plural name offset typed comma first last d branches head separated counted read
      nonempty other closed =>
      obtain ⟨tail, hbrace⟩ := head.brace
      have hstop : readSelector plural.isSome last = .ok none :=
        readSelector_of_brace (Cursor.Passes.of_closeBrace closed).rest
      have hread := read.readBranches hinner hstop (Nat.le_refl _)
      have hempty : branches.isEmpty = false := by simpa using nonempty
      have hother : ¬ (o.requiresOtherClause = true ∧ "other" ∉ branches.map Branch.selector) :=
        fun hmissing => hmissing.2 (other hmissing.1)
      have hall : readAllBranches inner o s plural.isSome first = .ok (branches, last) := by
        simp only [readAllBranches, bind, Except.bind, hread, hempty, Bool.false_eq_true, if_false,
          if_neg hother]
      rw [readElement_of_brace inner o s hbrace, readArgument_of_typed head]
      simp [readTyped, readSelectorArgument, bind, Except.bind, separated, counted, hall, closed,
        Functor.map, Except.map]
  | pound plural sign =>
      obtain ⟨text, hsign⟩ := sign
      simp [MessagePattern.readElement, hsign, plural]
  | selfClosing tags begins closed =>
      obtain ⟨letter, text, hbegins, hletter⟩ := begins
      rw [readElement_of_letter inner o s tags hbegins (by simpa using hletter)]
      simp [readTag, closed, Functor.map, Except.map]
  | @tag body stop d children tags begins opened inner' closed =>
      obtain ⟨letter, text, hbegins, hletter⟩ := begins
      have hslash : c.bump.tagName.2.skipSpace.skip? ['/', '>'] = none :=
        Cursor.skip?_eq_none_of_head (Cursor.Passes.of_expect opened).rest (by decide)
      have hchildren : inner s.tagBody body = .ok (children, stop) := inner'
      rw [readElement_of_letter inner o s tags hbegins (by simpa using hletter)]
      simp [readTag, hslash, bind, Except.bind, opened, hchildren, closed, Functor.map, Except.map]

/-- An element is read exactly if it can be derived. -/
theorem readElement_iff {c d : Cursor} {e : Element} :
    readElement inner o s c = .ok (some (e, d)) ↔ ElementRead inner.Gives o s c e d :=
  ⟨elementRead_of_ok fun _ _ _ _ => id, ElementRead.readElement hinner⟩

theorem ElementsRead.readElements {c d : Cursor} {es : List Element}
    (h : ElementsRead inner.Gives o s c es d) (hstop : Closes o s d.rest) {bound : Nat}
    (hbound : c.rest.length ≤ bound) : readElements inner o s bound c = .ok (es, d) := by
  induction h generalizing bound with
  | nil c => exact hstop.readElements bound rfl
  | cons first rest ih =>
      have hlt := first.length_lt hinner
      cases bound with
      | zero => omega
      | succ bound =>
          have hrest := ih hstop (show _ ≤ bound by omega)
          simp [MessagePattern.readElements, first.readElement hinner, bind, Except.bind, hrest]

/-- Reading stops where the text of its scope is over. -/
theorem closes_of_readElements {bound : Nat} {c d : Cursor} {es : List Element}
    (hbound : c.rest.length ≤ bound) (h : readElements inner o s bound c = .ok (es, d)) :
    Closes o s d.rest := by
  induction bound generalizing c es d with
  | zero =>
      cases h
      rw [List.length_eq_zero_iff.mp (Nat.le_zero.mp hbound)]
      exact .message
  | succ bound ih =>
      obtain ⟨found, hfound, rest⟩ := bind_eq_ok h
      cases found with
      | none =>
          cases rest
          exact closes_of_readElement hfound
      | some pair =>
          obtain ⟨e, next⟩ := pair
          obtain ⟨⟨others, last⟩, hothers, rest⟩ := bind_eq_ok rest
          cases rest
          have hlt := ((readElement_iff hinner).mp hfound).length_lt hinner
          exact ih (by omega) hothers

end Converse

/-- The text of a scope is read exactly if its elements can be derived one after
the other, up to where the scope is over. -/
theorem readMessage_succ_iff {o : ParseOptions} {budget : Nat} {s : Scope} {c d : Cursor}
    {es : List Element} :
    readMessage o (budget + 1) s c = .ok (es, d) ↔
      ElementsRead (NestedReader.Gives (readMessage o budget)) o s c es d ∧ Closes o s d.rest := by
  constructor
  · intro h
    exact ⟨elementsRead_of_ok (fun _ _ _ _ => id) h,
      closes_of_readElements reaches_of_readMessage (Nat.le_refl _) h⟩
  · rintro ⟨hread, hstop⟩
    exact hread.readElements reaches_of_readMessage hstop (Nat.le_refl _)

end MessagePattern
