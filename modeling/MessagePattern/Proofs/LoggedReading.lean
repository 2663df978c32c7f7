/-
# Readings with a log

The checkpoints of a tree tell what a successful reading came past.  A reading that fails
gives no tree, and has come past checkpoints all the same: those of everything in front of
the fault.  So the readers are repeated here with a log, in which a reading notes each
checkpoint when it comes past it.  A failing step ends the reading and keeps the log.

`Logs` says that a reader with a log is the reader that it repeats: without its log it is
that reader, and what a success has in its log are the checkpoints of what was read.
-/

import MessagePattern.Proofs.Checkpoints

namespace MessagePattern

/-- A reading with the checkpoints that it came past, in order. -/
structure Logged (α : Type) where
  log : List Checkpoint
  outcome : Except Failure α

namespace Logged

variable {α β : Type}

/-- One step behind another, which notes nothing if it is not reached. -/
def bind (x : Logged α) (next : α → Logged β) : Logged β :=
  match x.outcome with
  | .ok a => ⟨x.log ++ (next a).log, (next a).outcome⟩
  | .error f => ⟨x.log, .error f⟩

instance : Monad Logged where
  pure a := ⟨[], .ok a⟩
  bind := bind

/-- Steps of plain readers note nothing. -/
instance : MonadLift (Except Failure) Logged where
  monadLift x := ⟨[], x⟩

/-- Comes past a checkpoint. -/
def past (p : Checkpoint) : Logged Unit := ⟨[p], .ok ()⟩

/-- A step that comes past the checkpoints of what it gives. -/
def noting (points : α → List Checkpoint) (x : Except Failure α) : Logged α :=
  ⟨x.toOption.elim [] points, x⟩

end Logged

/-! ## Readers with a log -/

/-- A reader of the text inside a tag or a branch, with a log. -/
abbrev LoggedReader := Scope → Cursor → Logged (List Element × Cursor)

def logFragment (inner : LoggedReader) (s : Scope) (plural : Bool) (selector : String)
    (c : Cursor) : Logged (Branch Element × Cursor) := do
  let c := c.skipSpace
  let opening := c.position
  let c ← c.expect ['{'] (SelectorErrors.of plural).fragment c.here
  let (value, c) ← inner (s.branch plural) c
  let c ← c.closeBrace opening
  return (⟨selector, value, c.since opening⟩, c.skipSpace)

def logBranches (inner : LoggedReader) (s : Scope) (plural : Bool) :
    (bound : Nat) → (seen : List String) → Cursor → Logged (List (Branch Element) × Cursor)
  | 0, _, c => return ([], c)
  | bound + 1, seen, c => do
    match ← readSelector plural c with
    | none => return ([], c)
    | some (selector, d) =>
      if selector ∈ seen then d.fail (SelectorErrors.of plural).duplicate (d.since c.position)
      else
        let (branch, d) ← logFragment inner s plural selector d
        let (branches, d) ← logBranches inner s plural bound (selector :: seen) d
        return (branch :: branches, d)

def logAllBranches (inner : LoggedReader) (o : ParseOptions) (s : Scope) (plural : Bool)
    (c : Cursor) : Logged (List (Branch Element) × Cursor) := do
  let (branches, c) ← logBranches inner s plural c.rest.length [] c
  if branches.isEmpty then c.fail (SelectorErrors.of plural).selector c.here
  else if o.requiresOtherClause ∧ "other" ∉ branches.map Branch.selector then
    c.fail .missingOtherClause c.here
  else
    .past (.branches (branches.map Branch.selector))
    return (branches, c)

def logSelectorArgument (inner : LoggedReader) (o : ParseOptions) (s : Scope)
    (plural : Option PluralType) (name : String) (opening : Position) (c : Cursor) :
    Logged (Element × Cursor) := do
  let typeEnd := c.here
  let c := c.skipSpace
  let c ← c.expect [','] .expectSelectArgumentOptions typeEnd
  let (offset, c) ← readOffset plural.isSome c.skipSpace
  let (branches, c) ← logAllBranches inner o s plural.isSome c
  let c ← c.closeBrace opening
  return (.selector (selectorKind offset plural) name branches (c.since opening), c)

def logTypedArgument (inner : LoggedReader) (level : Nat) (o : ParseOptions) (s : Scope)
    (name : String) (opening : Position) (c : Cursor) : Logged (Element × Cursor) :=
  let (word, d) := c.identifier
  if word = "" then d.fail .expectArgumentType c.here
  else
    match argumentTypes.lookup word with
    | none => d.fail .invalidArgumentType (d.since c.position)
    | some .number => .noting (·.1.checkpoints level) (readNumber o name opening d)
    | some (.dateTime kind) => .noting (·.1.checkpoints level) (readDateTime o kind name opening d)
    | some (.selector plural) => logSelectorArgument inner o s plural name opening d

def logArgumentTail (inner : LoggedReader) (level : Nat) (o : ParseOptions) (s : Scope)
    (name : String) (opening : Position) (c : Cursor) : Logged (Element × Cursor) :=
  match c.rest with
  | [] => c.fail .expectArgumentClosingBrace (c.since opening)
  | ch :: _ =>
    if ch = '}' then
      let c := c.bump
      return (.argument name (c.since opening), c)
    else if ch = ',' then
      let c := c.bump.skipSpace
      if c.rest.isEmpty then c.fail .expectArgumentClosingBrace (c.since opening)
      else logTypedArgument inner level o s name opening c
    else c.fail .malformedArgument (c.since opening)

def logArgument (inner : LoggedReader) (level : Nat) (o : ParseOptions) (s : Scope) (c : Cursor) :
    Logged (Element × Cursor) :=
  let opening := c.position
  let c := c.bump.skipSpace
  match c.rest with
  | [] => c.fail .expectArgumentClosingBrace (c.since opening)
  | ch :: _ =>
    if ch = '}' then
      let c := c.bump
      c.fail .emptyArgument (c.since opening)
    else
      let (name, c) := c.identifier
      if name = "" then c.fail .malformedArgument (c.since opening)
      else logArgumentTail inner level o s name opening c.skipSpace

def logTag (inner : LoggedReader) (s : Scope) (c : Cursor) : Logged (Element × Cursor) :=
  let opening := c.position
  let (name, c) := c.bump.tagName
  let c := c.skipSpace
  match c.skip? ['/', '>'] with
  | some c => return (.literal ("<" ++ name ++ "/>") (c.since opening), c)
  | none => do
    let c ← c.expect ['>'] .invalidTag (c.since opening)
    let (children, c) ← inner s.tagBody c
    let c ← readClosingTag name opening c
    return (.tag name children (c.since opening), c)

def logElement (inner : LoggedReader) (level : Nat) (o : ParseOptions) (s : Scope) (c : Cursor) :
    Logged (Option (Element × Cursor)) :=
  match c.rest with
  | [] => return none
  | ch :: text =>
    if ch = '{' then some <$> logArgument inner level o s c
    else if ch = '}' ∧ s.nested then return none
    else if ch = '#' ∧ s.plural then
      let d := c.bump
      return some (.pound (d.since c.position), d)
    else if ch = '<' ∧ !o.ignoreTag ∧ text.head? = some '/' then
      if s.inTag then return none else c.fail .unmatchedClosingTag c.here
    else if ch = '<' ∧ !o.ignoreTag ∧ text.head?.any isTagLetter then some <$> logTag inner s c
    else return some (readLiteral o s c)

def logElements (inner : LoggedReader) (level : Nat) (o : ParseOptions) (s : Scope) :
    (bound : Nat) → Cursor → Logged (List Element × Cursor)
  | 0, c => return ([], c)
  | bound + 1, c => do
    match ← logElement inner level o s c with
    | none => return ([], c)
    | some (e, d) =>
      let (es, d) ← logElements inner level o s bound d
      return (e :: es, d)

/-- Where a text begins that is not nested too deep, there is a checkpoint. -/
def logMessage (o : ParseOptions) : (budget level : Nat) → LoggedReader
  | 0, _, _, c => c.fail .exceededMaxNestingDepth c.here
  | budget + 1, level, s, c => do
    .past (.text level)
    logElements (logMessage o budget (level + 1)) level o s c.rest.length c

def logAll (o : ParseOptions) (message : List Char) : Logged (List Element × Cursor) :=
  logMessage o (o.maxNestingDepth + 1) 0 .top (.start message)

/-- The checkpoints that the reading of a message comes past, in order, whether it succeeds or
fails. -/
def checkpointsPassed (message : String) (o : ParseOptions) : List Checkpoint :=
  (logAll o message.toList).log

/-- The skeletons that the reading of a message comes past, in order.  If it fails, these are the
skeletons in front of the fault. -/
def skeletonsPassed (message : String) (o : ParseOptions) : List Skeleton :=
  (checkpointsPassed message o).filterMap Checkpoint.skeleton?

/-! ## What the log has to do with the reading -/

/-- A reading with a log is a plain reading, and if it succeeds, its log has the checkpoints of
what was read. -/
structure Logs {α : Type} (points : α → List Checkpoint) (x : Logged α)
    (plain : Except Failure α) : Prop where
  outcome : x.outcome = plain
  log : ∀ a, plain = .ok a → x.log = points a

namespace Logs

variable {α β : Type} {points : α → List Checkpoint} {points' : β → List Checkpoint}

theorem ok {a : α} (h : points a = []) : Logs points (pure a) (.ok a) :=
  ⟨rfl, fun _ ha => Except.ok.inj ha ▸ h.symm⟩

theorem failed (f : Failure) : Logs points (liftM (.error f : Except Failure α)) (.error f) :=
  ⟨rfl, nofun⟩

theorem noting (x : Except Failure α) : Logs points (.noting points x) x := by
  refine ⟨rfl, ?_⟩
  rintro a rfl
  rfl

/-- Two steps one after the other. -/
theorem bind (behind : α → β → List Checkpoint) {x : Logged α} {y : Except Failure α}
    {next : α → Logged β} {next' : α → Except Failure β} (hx : Logs points x y)
    (hnext : ∀ a, y = .ok a → Logs (behind a) (next a) (next' a))
    (hpoints : ∀ a b, next' a = .ok b → points' b = points a ++ behind a b) :
    Logs points' (x >>= next) (y >>= next') := by
  obtain ⟨log, outcome⟩ := x
  obtain ⟨rfl, hlog⟩ := hx
  cases outcome with
  | error f => exact ⟨rfl, nofun⟩
  | ok a =>
      obtain ⟨houtcome, hbehind⟩ := hnext a rfl
      refine ⟨houtcome, fun b hb => ?_⟩
      rw [hpoints a b hb, ← hlog a rfl, ← hbehind b hb]
      rfl

/-- A plain step in front notes nothing. -/
theorem bind_plain {x : Except Failure α} {next : α → Logged β} {next' : α → Except Failure β}
    (h : ∀ a, x = .ok a → Logs points' (next a) (next' a)) :
    Logs points' (liftM x >>= next) (x >>= next') := by
  cases x with
  | error f => exact .failed f
  | ok a => exact h a rfl

/-- Putting together what was read notes nothing. -/
theorem map {x : Logged α} {y : Except Failure α} {f : α → β} (hx : Logs points x y)
    (hpoints : ∀ a, points' (f a) = points a) : Logs points' (f <$> x) (f <$> y) := by
  apply hx.bind fun _ _ => []
  · exact fun a _ => .ok rfl
  · rintro a b h
    cases h
    rw [hpoints, List.append_nil]

end Logs

section Readers

variable {inner : LoggedReader} {plain : NestedReader} {level : Nat}
  (hinner : ∀ s c, Logs (fun r => .text (level + 1) :: checkpoints (level + 1) r.1)
    (inner s c) (plain s c))

include hinner

theorem logs_readFragment (s : Scope) (plural : Bool) (selector : String) (c : Cursor) :
    Logs (fun r => .text (level + 1) :: checkpoints (level + 1) r.1.value)
      (logFragment inner s plural selector c) (readFragment plain s plural selector c) := by
  apply Logs.bind_plain
  intro body _
  apply (hinner _ body).bind fun _ _ => []
  · rintro ⟨value, stop⟩ _
    exact .bind_plain fun d _ => .ok rfl
  · rintro ⟨value, stop⟩ r hr
    obtain ⟨d, -, hr⟩ := bind_eq_ok hr
    cases hr
    rw [List.append_nil]

theorem logs_readBranches (s : Scope) (plural : Bool) (bound : Nat) (seen : List String)
    (c : Cursor) :
    Logs (fun r => branchCheckpoints (level + 1) r.1)
      (logBranches inner s plural bound seen c) (readBranches plain s plural bound seen c) := by
  induction bound generalizing seen c with
  | zero => exact .ok rfl
  | succ bound ih =>
      apply Logs.bind_plain
      intro found _
      match found with
      | none => exact .ok rfl
      | some (selector, d) =>
          simp only
          split
          · exact .failed _
          · apply (logs_readFragment hinner s plural selector d).bind
              fun _ r => branchCheckpoints (level + 1) r.1.tail
            · rintro ⟨branch, next⟩ _
              exact (ih (selector :: seen) next).map fun _ => rfl
            · rintro ⟨branch, next⟩ r hr
              obtain ⟨rest, -, hr⟩ := bind_eq_ok hr
              cases hr
              rfl

theorem logs_readAllBranches (o : ParseOptions) (s : Scope) (plural : Bool) (c : Cursor) :
    Logs (fun r => branchCheckpoints (level + 1) r.1 ++ [.branches (r.1.map Branch.selector)])
      (logAllBranches inner o s plural c) (readAllBranches plain o s plural c) := by
  apply (logs_readBranches hinner s plural c.rest.length [] c).bind
    fun _ r => [.branches (r.1.map Branch.selector)]
  · rintro ⟨branches, stop⟩ _
    simp only
    split
    · exact .failed _
    split
    · exact .failed _
    · exact ⟨rfl, fun r hr => by cases hr; rfl⟩
  · rintro ⟨branches, stop⟩ r hr
    simp only at hr
    split at hr
    · cases hr
    split at hr
    · cases hr
    · cases hr
      rfl

theorem logs_readSelectorArgument (o : ParseOptions) (s : Scope) (plural : Option PluralType)
    (name : String) (opening : Position) (c : Cursor) :
    Logs (fun r => r.1.checkpoints level) (logSelectorArgument inner o s plural name opening c)
      (readSelectorArgument plain o s plural name opening c) := by
  apply Logs.bind_plain
  intro comma _
  apply Logs.bind_plain
  rintro ⟨offset, first⟩ _
  apply (logs_readAllBranches hinner o s plural.isSome first).bind fun _ _ => []
  · rintro ⟨branches, stop⟩ _
    exact .bind_plain fun d _ => .ok rfl
  · rintro ⟨branches, stop⟩ r hr
    obtain ⟨d, -, hr⟩ := bind_eq_ok hr
    cases hr
    exact (List.append_nil _).symm

theorem logs_readTypedArgument (o : ParseOptions) (s : Scope) (name : String)
    (opening : Position) (c : Cursor) :
    Logs (fun r => r.1.checkpoints level) (logTypedArgument inner level o s name opening c)
      (readTypedArgument plain o s name opening c) := by
  unfold logTypedArgument readTypedArgument
  simp only
  split
  · exact .failed _
  cases argumentTypes.lookup c.identifier.1 with
  | none => exact .failed _
  | some type =>
      cases type with
      | number => exact .noting _
      | dateTime kind => exact .noting _
      | selector plural => exact logs_readSelectorArgument hinner o s plural name opening _

theorem logs_readArgumentTail (o : ParseOptions) (s : Scope) (name : String)
    (opening : Position) (c : Cursor) :
    Logs (fun r => r.1.checkpoints level) (logArgumentTail inner level o s name opening c)
      (readArgumentTail plain o s name opening c) := by
  unfold logArgumentTail readArgumentTail
  cases c.rest with
  | nil => exact .failed _
  | cons ch text =>
      simp only
      split
      · exact .ok rfl
      split
      · split
        · exact .failed _
        · exact logs_readTypedArgument hinner o s name opening _
      · exact .failed _

theorem logs_readArgument (o : ParseOptions) (s : Scope) (c : Cursor) :
    Logs (fun r => r.1.checkpoints level) (logArgument inner level o s c)
      (readArgument plain o s c) := by
  unfold logArgument readArgument
  simp only
  cases c.bump.skipSpace.rest with
  | nil => exact .failed _
  | cons ch text =>
      simp only
      split
      · exact .failed _
      split
      · exact .failed _
      · exact logs_readArgumentTail hinner o s _ _ _

theorem logs_readTag (s : Scope) (c : Cursor) :
    Logs (fun r => r.1.checkpoints level) (logTag inner s c) (readTag plain s c) := by
  unfold logTag readTag
  simp only
  cases c.bump.tagName.2.skipSpace.skip? ['/', '>'] with
  | some d => exact .ok rfl
  | none =>
      apply Logs.bind_plain
      intro body _
      apply (hinner _ body).bind fun _ _ => []
      · rintro ⟨children, stop⟩ _
        exact .bind_plain fun d _ => .ok rfl
      · rintro ⟨children, stop⟩ r hr
        obtain ⟨d, -, hr⟩ := bind_eq_ok hr
        cases hr
        exact (List.append_nil _).symm

theorem logs_readElement (o : ParseOptions) (s : Scope) (c : Cursor) :
    Logs (fun r => r.elim [] fun r => r.1.checkpoints level) (logElement inner level o s c)
      (readElement plain o s c) := by
  unfold logElement readElement
  cases c.rest with
  | nil => exact .ok rfl
  | cons ch text =>
      simp only
      split
      · exact (logs_readArgument hinner o s c).map fun _ => rfl
      split
      · exact .ok rfl
      split
      · exact .ok rfl
      split
      · split
        · exact .ok rfl
        · exact .failed _
      split
      · exact (logs_readTag hinner s c).map fun _ => rfl
      · exact .ok rfl

theorem logs_readElements (o : ParseOptions) (s : Scope) (bound : Nat) (c : Cursor) :
    Logs (fun r => checkpoints level r.1) (logElements inner level o s bound c)
      (readElements plain o s bound c) := by
  induction bound generalizing c with
  | zero => exact .ok rfl
  | succ bound ih =>
      apply (logs_readElement hinner o s c).bind fun _ r => checkpoints level r.1.tail
      · intro found _
        match found with
        | none => exact .ok rfl
        | some (e, d) => exact (ih d).map fun _ => rfl
      · intro found r hr
        match found with
        | none =>
            cases hr
            rfl
        | some (e, d) =>
            obtain ⟨rest, -, hr⟩ := bind_eq_ok hr
            cases hr
            rfl

end Readers

theorem logs_readMessage (o : ParseOptions) (budget level : Nat) (s : Scope) (c : Cursor) :
    Logs (fun r => .text level :: checkpoints level r.1) (logMessage o budget level s c)
      (readMessage o budget s c) := by
  induction budget generalizing level s c with
  | zero => exact .failed _
  | succ budget ih =>
      obtain ⟨houtcome, hlog⟩ := logs_readElements (ih (level + 1)) o s c.rest.length c
      refine ⟨houtcome, fun r hr => ?_⟩
      exact congrArg (.text level :: ·) (hlog r hr)

theorem logs_readAll (o : ParseOptions) (message : List Char) :
    Logs (fun r => .text 0 :: checkpoints 0 r.1) (logAll o message) (readAll o message) :=
  logs_readMessage o _ 0 _ _

/-- A successful reading has come past the checkpoints of its tree, behind the beginning of the
message. -/
theorem checkpointsPassed_of_parse {message : String} {o : ParseOptions} {elements : List Element}
    (h : parse message o = .ok elements) :
    checkpointsPassed message o = .text 0 :: checkpoints 0 elements := by
  unfold parse at h
  split at h
  · next d hread =>
      cases h
      exact (logs_readAll o message.toList).log _ hread
  · cases h

theorem skeletonsPassed_of_parse {message : String} {o : ParseOptions} {elements : List Element}
    (h : parse message o = .ok elements) : skeletonsPassed message o = skeletons elements := by
  rw [skeletonsPassed, checkpointsPassed_of_parse h]
  rfl

end MessagePattern
