/-
# Writing values as JSON and reading them back

For each type of values there is one fact of the form `Codec write read P`: the
values that satisfy `P` are read as they were written, and no others are ever
read.  The facts about records are put together from those about their fields.
Fields that may be unset are told from set ones by never writing a value as null.

What the alternatives of an untagged type have in common is their place and not
their form: a style is a text or an object, and grouping is a boolean or a text.
-/

import Mathlib.Data.List.Nodup
import MessagePattern.Json.Decode

namespace MessagePattern

open Json

/-! ## Writers and readers that belong together -/

/-- The values that satisfy `P` are read as they were written, no others are ever
read, and none of them is written as null, which stands for no value. -/
structure Codec {α : Type} (write : α → Json) (read : Json → Option α) (P : α → Prop) :
    Prop where
  back : ∀ {a}, P a → read (write a) = some a
  sound : ∀ {j a}, read j = some a → P a
  present : ∀ {a}, P a → write a ≠ .null

/-- A record is read field by field. -/
theorem bind_of_eq_some {α β : Type} {x : Option α} {f : α → Option β} {a : α} {b : β}
    (h : x = some a) (hrest : f a = some b) : (x >>= f) = some b := by
  rw [h]
  exact hrest

section Lists

variable {α : Type}

theorem mapM_map_eq_some {write : α → Json} {read : Json → Option α} {as : List α}
    (h : ∀ a ∈ as, read (write a) = some a) : (as.map write).mapM read = some as := by
  induction as with
  | nil => rfl
  | cons a as ih =>
      rw [List.forall_mem_cons] at h
      rw [List.map_cons, List.mapM_cons, h.1, ih h.2]
      rfl

/-- Every member of a list that was read was read from a member. -/
theorem exists_of_mapM_eq_some {read : Json → Option α} {js : List Json} {as : List α}
    (h : js.mapM read = some as) {a : α} (ha : a ∈ as) : ∃ j ∈ js, read j = some a := by
  induction js generalizing as with
  | nil =>
      cases h
      cases ha
  | cons j js ih =>
      rw [List.mapM_cons] at h
      obtain ⟨first, hfirst, h⟩ := Option.bind_eq_some_iff.mp h
      obtain ⟨rest, hrest, h⟩ := Option.bind_eq_some_iff.mp h
      cases h
      rcases List.mem_cons.mp ha with rfl | ha
      · exact ⟨j, List.mem_cons_self, hfirst⟩
      · obtain ⟨j', hj', hread⟩ := ih hrest ha
        exact ⟨j', List.mem_cons_of_mem j hj', hread⟩

end Lists

namespace Codec

variable {α : Type}

theorem str : Codec .str string? fun _ => True where
  back _ := rfl
  sound _ := trivial
  present _ := nofun

theorem bool : Codec .bool bool? fun _ => True where
  back _ := rfl
  sound _ := trivial
  present _ := nofun

theorem keyword [Keyword α] : Codec (ofKeyword : α → Json) keyword? fun _ => True where
  back _ := Keyword.ofWord?_word _
  sound _ := trivial
  present _ := nofun

theorem int (low high : Int) : Codec .int (int? low high) fun n => low ≤ n ∧ n ≤ high where
  back h := if_pos h
  sound {j n} h := by
    cases j with
    | int m =>
        rw [int?] at h
        split at h
        · next hm => exact Option.some.inj h ▸ hm
        · cases h
    | _ => cases h
  present _ := nofun

theorem nat (high : Nat) : Codec (fun n : Nat => .int n) (nat? high) (· ≤ high) where
  back {n} h := by
    have hrange : (0 : Int) ≤ n ∧ (n : Int) ≤ high := by omega
    simp [nat?, (int 0 high).back hrange]
  sound {j n} h := by
    obtain ⟨m, hm, rfl⟩ := Option.map_eq_some_iff.mp h
    have hrange := (int 0 high).sound hm
    omega
  present _ := nofun

theorem float : Codec ofFloat float? fun x => x.isFinite = true where
  back h := by simp [ofFloat, float?, h]
  sound {j x} h := by
    cases j with
    | int n =>
        rw [float?] at h
        exact (Option.filter_eq_some_iff.mp h).2
    | float y =>
        rw [float?] at h
        exact (Option.filter_eq_some_iff.mp h).2
    | _ => cases h
  present h := by simp [ofFloat, h]

theorem grouping : Codec Grouping.toJson Grouping.ofJson? fun _ => True where
  back {g} _ := by
    cases g with
    | enabled on => rfl
    | mode m =>
        have hmode : keyword? (ofKeyword m) = some m := keyword.back trivial
        change (keyword? (ofKeyword m)).map Grouping.mode = _
        rw [hmode]
        rfl
  sound _ := trivial
  present {g} _ := by cases g <;> nofun

theorem list {write : α → Json} {read : Json → Option α} {P : α → Prop} (c : Codec write read P) :
    Codec (fun as => .arr (as.map write)) (list? read) fun as => ∀ a ∈ as, P a where
  back h := mapM_map_eq_some fun a ha => c.back (h a ha)
  sound {j as} h a ha := by
    cases j with
    | arr js =>
        obtain ⟨j, -, hj⟩ := exists_of_mapM_eq_some h ha
        exact c.sound hj
    | _ => cases h
  present _ := nofun

/-! ## Fields -/

variable {write : α → Json} {read : Json → Option α} {P : α → Prop} {key : String}
  {fields : List (String × Json)}

theorem required (c : Codec write read P) {a : α} (hfield : fields.lookup key = some (write a))
    (h : P a) : required key read fields = some a := by
  rw [Json.required, hfield]
  exact c.back h

theorem of_required (c : Codec write read P) {a : α} (h : Json.required key read fields = some a) :
    P a := by
  obtain ⟨j, -, hj⟩ := Option.bind_eq_some_iff.mp h
  exact c.sound hj

/-- A field that may be unset is read back if it is left out when it is. -/
theorem unsettable (c : Codec write read P) {a : Option α}
    (hfield : fields.lookup key = a.map write) (h : ∀ x ∈ a, P x) :
    unsettable key read fields = some a := by
  rw [Json.unsettable, hfield]
  cases a with
  | none => rfl
  | some x =>
      rw [Option.map_some]
      split
      · next hnone => cases hnone
      · next hnull => exact absurd (Option.some.inj hnull) (c.present (h x rfl))
      · next hj =>
          cases hj
          rw [c.back (h x rfl)]
          rfl

/-- A field that may be unset is read back if null is written for it when it is. -/
theorem unsettable_optional (c : Codec write read P) {a : Option α}
    (hfield : fields.lookup key = some (optional write a)) (h : ∀ x ∈ a, P x) :
    Json.unsettable key read fields = some a := by
  cases a with
  | none =>
      rw [Json.unsettable, hfield]
      rfl
  | some x => exact c.unsettable hfield h

theorem of_unsettable (c : Codec write read P) {a : Option α}
    (h : Json.unsettable key read fields = some a) : ∀ x ∈ a, P x := by
  intro x hx
  rw [Json.unsettable] at h
  split at h
  · cases h
    cases hx
  · cases h
    cases hx
  · obtain ⟨y, hy, rfl⟩ := Option.map_eq_some_iff.mp h
    cases hx
    exact c.sound hy

end Codec

theorem lookup_settings_of_notMem {settings : List (String × Option Json)} {key : String}
    (h : key ∉ settings.map Prod.fst) :
    (settings.filterMap fun (key, value) => value.map fun j => (key, j)).lookup key = none := by
  rw [List.lookup_eq_none_iff]
  rintro ⟨other, j⟩ hj
  obtain ⟨⟨other', value⟩, hmem, hvalue⟩ := List.mem_filterMap.mp hj
  obtain ⟨_, -, hpair⟩ := Option.map_eq_some_iff.mp hvalue
  cases hpair
  rw [bne_iff_ne]
  rintro rfl
  exact h (List.mem_map_of_mem hmem)

/-- In a record of settings each value is found under its key. -/
theorem lookup_settings {settings : List (String × Option Json)} {key : String}
    {value : Option Json} (hkeys : (settings.map Prod.fst).Nodup) (h : (key, value) ∈ settings) :
    (settings.filterMap fun (key, value) => value.map fun j => (key, j)).lookup key = value := by
  induction settings with
  | nil => cases h
  | cons first rest ih =>
      obtain ⟨other, set⟩ := first
      rw [List.map_cons, List.nodup_cons] at hkeys
      rcases List.mem_cons.mp h with heq | hmem
      · cases heq
        cases value with
        | none => simpa using lookup_settings_of_notMem hkeys.1
        | some j => simp
      · have hne : (key == other) = false :=
          beq_eq_false_iff_ne.mpr fun heq => hkeys.1 (List.mem_map.mpr ⟨_, hmem, heq⟩)
        rw [← ih hkeys.2 hmem]
        cases set with
        | none => simp
        | some j => simp [List.lookup_cons, hne]

/-- A setting that is read back from a record.  Where every value can be written,
nothing has to be shown of it. -/
theorem Codec.setting {α : Type} {write : α → Json} {read : Json → Option α} {P : α → Prop}
    (c : Codec write read P) {settings : List (String × Option Json)} {key : String}
    {a : Option α} (hkeys : (settings.map Prod.fst).Nodup)
    (hmem : (key, a.map write) ∈ settings := by simp) (h : ∀ x ∈ a, P x := by simp) :
    Json.unsettable key read
      (settings.filterMap fun (key, value) => value.map fun j => (key, j)) = some a :=
  c.unsettable (lookup_settings hkeys hmem) h

/-! ## Places and tokens -/

/-- Every number of the position fits its field. -/
def Position.Representable (p : Position) : Prop :=
  p.offset ≤ maxWord64 ∧ p.line ≤ maxWord64 ∧ p.column ≤ maxWord64

/-- Both ends of the location fit their fields. -/
def Location.Representable (l : Location) : Prop :=
  l.start.Representable ∧ l.stop.Representable

namespace Codec

theorem position : Codec Position.toJson Position.ofJson? Position.Representable where
  back {p} h := by
    simp only [Position.ofJson?, Option.bind_eq_bind, Option.bind_eq_some_iff]
    exact ⟨_, rfl, _, (nat _).required rfl h.1, _, (nat _).required rfl h.2.1, _,
      (nat _).required rfl h.2.2, rfl⟩
  sound {j p} h := by
    simp only [Position.ofJson?, Option.bind_eq_bind, Option.bind_eq_some_iff] at h
    obtain ⟨_, -, _, hoffset, _, hline, _, hcolumn, hp⟩ := h
    cases hp
    exact ⟨(nat _).of_required hoffset, (nat _).of_required hline, (nat _).of_required hcolumn⟩
  present _ := nofun

theorem location : Codec Location.toJson Location.ofJson? Location.Representable where
  back {l} h := by
    simp only [Location.ofJson?, Option.bind_eq_bind, Option.bind_eq_some_iff]
    exact ⟨_, rfl, _, position.required rfl h.1, _, position.required rfl h.2, rfl⟩
  sound {j l} h := by
    simp only [Location.ofJson?, Option.bind_eq_bind, Option.bind_eq_some_iff] at h
    obtain ⟨_, -, _, hstart, _, hstop, hl⟩ := h
    cases hl
    exact ⟨position.of_required hstart, position.of_required hstop⟩
  present _ := nofun

theorem token : Codec NumberToken.toJson NumberToken.ofJson? fun _ => True where
  back {t} _ := by
    simp only [NumberToken.ofJson?, Option.bind_eq_bind, Option.bind_eq_some_iff]
    exact ⟨_, rfl, _, str.required rfl trivial, _, str.list.required rfl fun _ _ => trivial, rfl⟩
  sound _ := trivial
  present _ := nofun

end Codec

/-! ## Format options -/

/-- The scale factor is finite and every number of digits fits its field. -/
structure NumberFormatOptions.Representable (o : NumberFormatOptions) : Prop where
  scale : ∀ x ∈ o.scale, x.isFinite = true
  minimumIntegerDigits : ∀ n ∈ o.minimumIntegerDigits, n ≤ maxWord32
  minimumFractionDigits : ∀ n ∈ o.minimumFractionDigits, n ≤ maxWord32
  maximumFractionDigits : ∀ n ∈ o.maximumFractionDigits, n ≤ maxWord32
  minimumSignificantDigits : ∀ n ∈ o.minimumSignificantDigits, n ≤ maxWord32
  maximumSignificantDigits : ∀ n ∈ o.maximumSignificantDigits, n ≤ maxWord32

namespace Codec

theorem numberFormatOptions : Codec NumberFormatOptions.toJson NumberFormatOptions.ofJson?
    NumberFormatOptions.Representable where
  back {o} h := by
    have hkeys : (["style", "currency", "currencyDisplay", "currencySign", "unit", "unitDisplay",
        "useGrouping", "notation", "compactDisplay", "signDisplay", "scale",
        "minimumIntegerDigits", "minimumFractionDigits", "maximumFractionDigits",
        "minimumSignificantDigits", "maximumSignificantDigits", "roundingPriority",
        "roundingMode", "trailingZeroDisplay"] : List String).Nodup := by decide
    exact bind_of_eq_some rfl <|
      bind_of_eq_some (keyword.setting hkeys) <|
      bind_of_eq_some (str.setting hkeys) <|
      bind_of_eq_some (keyword.setting hkeys) <|
      bind_of_eq_some (keyword.setting hkeys) <|
      bind_of_eq_some (str.setting hkeys) <|
      bind_of_eq_some (keyword.setting hkeys) <|
      bind_of_eq_some (grouping.setting hkeys) <|
      bind_of_eq_some (keyword.setting hkeys) <|
      bind_of_eq_some (keyword.setting hkeys) <|
      bind_of_eq_some (keyword.setting hkeys) <|
      bind_of_eq_some (float.setting hkeys (h := h.scale)) <|
      bind_of_eq_some ((nat _).setting hkeys (h := h.minimumIntegerDigits)) <|
      bind_of_eq_some ((nat _).setting hkeys (h := h.minimumFractionDigits)) <|
      bind_of_eq_some ((nat _).setting hkeys (h := h.maximumFractionDigits)) <|
      bind_of_eq_some ((nat _).setting hkeys (h := h.minimumSignificantDigits)) <|
      bind_of_eq_some ((nat _).setting hkeys (h := h.maximumSignificantDigits)) <|
      bind_of_eq_some (keyword.setting hkeys) <|
      bind_of_eq_some (keyword.setting hkeys) <|
      bind_of_eq_some (keyword.setting hkeys) rfl
  sound {j o} h := by
    -- The object itself and the settings in front of the scale factor.
    iterate 11 obtain ⟨_, -, h⟩ := Option.bind_eq_some_iff.mp h
    obtain ⟨_, hscale, h⟩ := Option.bind_eq_some_iff.mp h
    obtain ⟨_, hinteger, h⟩ := Option.bind_eq_some_iff.mp h
    obtain ⟨_, hleast, h⟩ := Option.bind_eq_some_iff.mp h
    obtain ⟨_, hmost, h⟩ := Option.bind_eq_some_iff.mp h
    obtain ⟨_, hleastSignificant, h⟩ := Option.bind_eq_some_iff.mp h
    obtain ⟨_, hmostSignificant, h⟩ := Option.bind_eq_some_iff.mp h
    iterate 3 obtain ⟨_, -, h⟩ := Option.bind_eq_some_iff.mp h
    cases h
    exact ⟨float.of_unsettable hscale, (nat _).of_unsettable hinteger,
      (nat _).of_unsettable hleast, (nat _).of_unsettable hmost,
      (nat _).of_unsettable hleastSignificant, (nat _).of_unsettable hmostSignificant⟩
  present _ := nofun

theorem dateTimeFormatOptions : Codec DateTimeFormatOptions.toJson DateTimeFormatOptions.ofJson?
    fun _ => True where
  back {o} _ := by
    have hkeys : ["era", "year", "month", "day", "weekday", "hour12", "hourCycle", "hour",
        "minute", "second", "timeZoneName"].Nodup := by decide
    exact bind_of_eq_some rfl <|
      bind_of_eq_some (keyword.setting hkeys) <|
      bind_of_eq_some (keyword.setting hkeys) <|
      bind_of_eq_some (keyword.setting hkeys) <|
      bind_of_eq_some (keyword.setting hkeys) <|
      bind_of_eq_some (keyword.setting hkeys) <|
      bind_of_eq_some (bool.setting hkeys) <|
      bind_of_eq_some (keyword.setting hkeys) <|
      bind_of_eq_some (keyword.setting hkeys) <|
      bind_of_eq_some (keyword.setting hkeys) <|
      bind_of_eq_some (keyword.setting hkeys) <|
      bind_of_eq_some (keyword.setting hkeys) rfl
  sound _ := trivial
  present _ := nofun

end Codec

/-! ## Styles -/

/-- The location and the settings of the skeleton fit their fields. -/
def NumberSkeleton.Representable (k : NumberSkeleton) : Prop :=
  k.location.Representable ∧ ∀ o ∈ k.parsedOptions, o.Representable

/-- The location of the skeleton fits its fields. -/
def DateTimeSkeleton.Representable (k : DateTimeSkeleton) : Prop :=
  k.location.Representable

/-- The skeleton of the style, if it has one, satisfies `P`. -/
def Style.Holds {σ : Type} (P : σ → Prop) : Style σ → Prop
  | .text _ => True
  | .skeleton k => P k

namespace Codec

theorem numberSkeleton :
    Codec NumberSkeleton.toJson NumberSkeleton.ofJson? NumberSkeleton.Representable where
  back {k} h := by
    simp only [NumberSkeleton.ofJson?, Option.bind_eq_bind, Option.bind_eq_some_iff]
    exact ⟨_, rfl, _, token.list.required rfl fun _ _ => trivial, _, location.required rfl h.1,
      _, numberFormatOptions.unsettable_optional rfl h.2, rfl⟩
  sound {j k} h := by
    simp only [NumberSkeleton.ofJson?, Option.bind_eq_bind, Option.bind_eq_some_iff] at h
    obtain ⟨_, -, _, -, _, hlocation, _, hoptions, hk⟩ := h
    cases hk
    exact ⟨location.of_required hlocation, numberFormatOptions.of_unsettable hoptions⟩
  present _ := nofun

theorem dateTimeSkeleton :
    Codec DateTimeSkeleton.toJson DateTimeSkeleton.ofJson? DateTimeSkeleton.Representable where
  back {k} h := by
    simp only [DateTimeSkeleton.ofJson?, Option.bind_eq_bind, Option.bind_eq_some_iff]
    exact ⟨_, rfl, _, str.required rfl trivial, _, location.required rfl h,
      _, dateTimeFormatOptions.unsettable_optional rfl fun _ _ => trivial, rfl⟩
  sound {j k} h := by
    simp only [DateTimeSkeleton.ofJson?, Option.bind_eq_bind, Option.bind_eq_some_iff] at h
    obtain ⟨_, -, _, -, _, hlocation, _, -, hk⟩ := h
    cases hk
    exact location.of_required hlocation
  present _ := nofun

/-- A style is told by its form: a text is a name, and an object is a skeleton. -/
theorem style {σ : Type} {write : σ → Json} {read : Json → Option σ} {P : σ → Prop}
    (c : Codec write read P) (hobject : ∀ k, ∃ fields, write k = .obj fields) :
    Codec (Style.toJson write) (Style.ofJson? read) (Style.Holds P) where
  back {s} h := by
    cases s with
    | text name => rfl
    | skeleton k =>
        obtain ⟨fields, hfields⟩ := hobject k
        have hread : read (.obj fields) = some k := hfields ▸ c.back h
        rw [Style.toJson, hfields, Style.ofJson?, hread]
        · rfl
        · nofun
  sound {j s} h := by
    cases s with
    | text name => trivial
    | skeleton k =>
        unfold Style.ofJson? at h
        split at h
        · cases h
        · obtain ⟨k', hk, hsame⟩ := Option.map_eq_some_iff.mp h
          cases hsame
          exact c.sound hk
  present {s} h := by
    cases s with
    | text name => nofun
    | skeleton k => exact c.present h

theorem numberStyle :
    Codec (Style.toJson NumberSkeleton.toJson) (Style.ofJson? NumberSkeleton.ofJson?)
      (Style.Holds NumberSkeleton.Representable) :=
  numberSkeleton.style fun _ => ⟨_, rfl⟩

theorem dateTimeStyle :
    Codec (Style.toJson DateTimeSkeleton.toJson) (Style.ofJson? DateTimeSkeleton.ofJson?)
      (Style.Holds DateTimeSkeleton.Representable) :=
  dateTimeSkeleton.style fun _ => ⟨_, rfl⟩

end Codec

end MessagePattern
