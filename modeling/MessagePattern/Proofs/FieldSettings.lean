/-
# What the fields of a date-time pattern set

`DateTimeSetting` names the settings of a date-time format with the letters that give them
a value, and `UnsupportedGroup.letters` names the letters that no setting stands for.  The
letters `e` and `c` stand for the weekday and are refused all the same if a field has fewer
than four of them.

A pattern is interpreted exactly if it has no refused field.  Then every setting has the
value of the last field with one of its letters, and of the other fields nothing is left
in it.
-/

import Mathlib.Tactic.FinCases
import MessagePattern.Proofs.Layers
import MessagePattern.Proofs.LetterRuns

namespace MessagePattern

/-! ## What a field sets -/

namespace DateTimeField

/-- What one field sets, whatever is set in front of it. -/
def settings (f : DateTimeField) : Except SkeletonError DateTimeFormatOptions :=
  let refuse (group : UnsupportedGroup) : Except SkeletonError DateTimeFormatOptions :=
    .error (.unsupportedField f.letter group)
  match f.letter with
  | 'G' => .ok { era := some (textWidth f.width) }
  | 'y' => .ok { year := some (numericWidth f.width) }
  | 'Y' | 'u' | 'U' | 'r' => refuse .year
  | 'q' | 'Q' => refuse .quarter
  | 'M' | 'L' => .ok { month := some (monthWidth f.width) }
  | 'w' | 'W' => refuse .week
  | 'd' => .ok { day := some (numericWidth f.width) }
  | 'D' | 'F' | 'g' => refuse .day
  | 'E' => .ok { weekday := some (textWidth f.width) }
  | 'e' | 'c' =>
    if f.width < 4 then refuse .weekday else .ok { weekday := some (textWidth f.width) }
  | 'a' => .ok { hour12 := some true }
  | 'b' | 'B' => refuse .period
  | 'h' => .ok { hourCycle := some .h12, hour := some (numericWidth f.width) }
  | 'H' => .ok { hourCycle := some .h23, hour := some (numericWidth f.width) }
  | 'K' => .ok { hourCycle := some .h11, hour := some (numericWidth f.width) }
  | 'k' => .ok { hourCycle := some .h24, hour := some (numericWidth f.width) }
  | 'j' | 'J' | 'C' => refuse .hour
  | 'm' => .ok { minute := some (numericWidth f.width) }
  | 's' => .ok { second := some (numericWidth f.width) }
  | 'S' | 'A' => refuse .second
  | 'z' => .ok { timeZoneName := some (timeZoneWidth f.width) }
  | 'Z' | 'O' | 'v' | 'V' | 'X' | 'x' => refuse .timeZone
  | _ => .ok {}

/-- A field lays its settings over those in front of it, and is refused whatever those are. -/
theorem applyTo_eq (f : DateTimeField) (r : DateTimeFormatOptions) :
    f.applyTo r = r.override <$> f.settings := by
  obtain ⟨letter, width⟩ := f
  unfold applyTo settings
  simp only
  split
  -- Where the width decides, the letter is that of a weekday.
  all_goals first
    | rfl
    | by_cases hwidth : width < 4 <;> simp only [hwidth, if_true, if_false] <;> rfl

end DateTimeField

/-! ## Refused fields -/

/-- The letters of a group, which are refused at any width.  The letters of weekdays are
refused only if they are few. -/
def UnsupportedGroup.letters : UnsupportedGroup → List Char
  | .year => ['Y', 'u', 'U', 'r']
  | .quarter => ['q', 'Q']
  | .week => ['w', 'W']
  | .day => ['D', 'F', 'g']
  | .weekday => []
  | .period => ['b', 'B']
  | .hour => ['j', 'J', 'C']
  | .second => ['S', 'A']
  | .timeZone => ['Z', 'O', 'v', 'V', 'X', 'x']

namespace DateTimeField

variable {f : DateTimeField}

/-- The field is refused with the group. -/
inductive Refused (f : DateTimeField) : UnsupportedGroup → Prop
  | letter {group : UnsupportedGroup} (member : f.letter ∈ group.letters) : Refused f group
  | narrow (weekday : f.letter = 'e' ∨ f.letter = 'c') (width : f.width < 4) : Refused f .weekday

/-- What is reported of a refused field is its letter, with the group. -/
theorem settings_eq_error_iff {e : SkeletonError} :
    f.settings = .error e ↔ ∃ group, f.Refused group ∧ e = .unsupportedField f.letter group := by
  obtain ⟨letter, width⟩ := f
  constructor
  · intro h
    unfold settings at h
    simp only at h
    repeat' split at h
    all_goals cases h
    -- The letter is known in each case, and only that of a weekday is refused for the width.
    all_goals first
      | refine ⟨_, .letter ?_, rfl⟩; simp [UnsupportedGroup.letters]; done
      | exact ⟨_, .narrow (by simp) ‹_›, rfl⟩
  · rintro ⟨group, hrefused, rfl⟩
    cases hrefused with
    | letter member =>
        cases group <;> fin_cases member <;> rfl
    | narrow weekday width =>
        rcases weekday with rfl | rfl <;> exact if_pos width

theorem exists_settings_iff :
    (∃ options, f.settings = .ok options) ↔ ∀ group, ¬ f.Refused group := by
  rw [exists_eq_ok_iff]
  constructor
  · intro h group hrefused
    exact h _ (settings_eq_error_iff.mpr ⟨group, hrefused, rfl⟩)
  · intro h e he
    obtain ⟨group, hrefused, -⟩ := settings_eq_error_iff.mp he
    exact h group hrefused

theorem not_refused_iff : (∀ group, ¬ f.Refused group) ↔
    (∀ group : UnsupportedGroup, f.letter ∉ group.letters) ∧
      (f.letter = 'e' ∨ f.letter = 'c' → 4 ≤ f.width) := by
  constructor
  · intro h
    exact ⟨fun group member => h group (.letter member),
      fun weekday => Nat.le_of_not_lt fun width => h .weekday (.narrow weekday width)⟩
  · rintro ⟨hletter, hwidth⟩ group hrefused
    cases hrefused with
    | letter member => exact hletter group member
    | narrow weekday width => exact Nat.not_lt_of_le (hwidth weekday) width

end DateTimeField

/-! ## Settings -/

/-- The settings of a date-time format, each with the type of its values. -/
inductive DateTimeSetting : Type → Type 1
  | era : DateTimeSetting TextWidth
  | year : DateTimeSetting NumericWidth
  | month : DateTimeSetting MonthWidth
  | day : DateTimeSetting NumericWidth
  | weekday : DateTimeSetting TextWidth
  | hour12 : DateTimeSetting Bool
  | hourCycle : DateTimeSetting HourCycle
  | hour : DateTimeSetting NumericWidth
  | minute : DateTimeSetting NumericWidth
  | second : DateTimeSetting NumericWidth
  | timeZoneName : DateTimeSetting TimeZoneWidth

namespace DateTimeSetting

variable {α : Type}

/-- What a format says about a setting, if anything. -/
def get : DateTimeSetting α → DateTimeFormatOptions → Option α
  | .era, options => options.era
  | .year, options => options.year
  | .month, options => options.month
  | .day, options => options.day
  | .weekday, options => options.weekday
  | .hour12, options => options.hour12
  | .hourCycle, options => options.hourCycle
  | .hour, options => options.hour
  | .minute, options => options.minute
  | .second, options => options.second
  | .timeZoneName, options => options.timeZoneName

/-- The letters of the fields that give a setting its value. -/
def letters : DateTimeSetting α → List Char
  | .era => ['G']
  | .year => ['y']
  | .month => ['M', 'L']
  | .day => ['d']
  | .weekday => ['E', 'e', 'c']
  | .hour12 => ['a']
  | .hourCycle => ['h', 'H', 'K', 'k']
  | .hour => ['h', 'H', 'K', 'k']
  | .minute => ['m']
  | .second => ['s']
  | .timeZoneName => ['z']

/-- The numbers of the hours, by the letter of the field. -/
def cycleOfLetter (letter : Char) : HourCycle :=
  if letter = 'h' then .h12 else if letter = 'H' then .h23
  else if letter = 'K' then .h11 else .h24

/-- The value that a field with one of its letters gives a setting. -/
def value : DateTimeSetting α → DateTimeField → α
  | .era, f => DateTimeField.textWidth f.width
  | .year, f => DateTimeField.numericWidth f.width
  | .month, f => DateTimeField.monthWidth f.width
  | .day, f => DateTimeField.numericWidth f.width
  | .weekday, f => DateTimeField.textWidth f.width
  | .hour12, _ => true
  | .hourCycle, f => cycleOfLetter f.letter
  | .hour, f => DateTimeField.numericWidth f.width
  | .minute, f => DateTimeField.numericWidth f.width
  | .second, f => DateTimeField.numericWidth f.width
  | .timeZoneName, f => DateTimeField.timeZoneWidth f.width

@[simp] theorem get_empty (k : DateTimeSetting α) : k.get {} = none := by
  cases k <;> rfl

@[simp] theorem get_override (k : DateTimeSetting α) (a b : DateTimeFormatOptions) :
    k.get (a.override b) = (k.get b).or (k.get a) := by
  cases k <;> rfl

/-- A field gives a value to the settings that its letter stands for, and to no other. -/
theorem get_settings {f : DateTimeField} {options : DateTimeFormatOptions}
    (h : f.settings = .ok options) (k : DateTimeSetting α) :
    k.get options = if f.letter ∈ k.letters then some (k.value f) else none := by
  obtain ⟨letter, width⟩ := f
  unfold DateTimeField.settings at h
  simp only at h
  repeat' split at h
  all_goals cases h
  -- In each case but the last the letter is known; there it is none of those in the table.
  all_goals cases k <;> first | rfl | grind [get, letters]

end DateTimeSetting

namespace DateTimeFormatOptions

instance : Std.Associative override := ⟨override_assoc⟩

instance : Std.LawfulIdentity override {} where
  left_id := empty_override
  right_id := override_empty

end DateTimeFormatOptions

/-! ## Patterns -/

namespace DateTimeSkeleton

variable {text : List Char} {fs : List DateTimeField}

/-- The pattern has no active letter that is refused at any width, and of each run of
weekday letters either nothing is left over or enough for a name. -/
structure Supported (text : List Char) : Prop where
  letters : ∀ c ∈ activeLetters text, ∀ group : UnsupportedGroup, c ∉ group.letters
  weekdays : ∀ run ∈ activeRuns text, run.1 = 'e' ∨ run.1 = 'c' → run.2 % 6 ∉ [1, 2, 3]

/-- The fields of a run of weekday letters are wide enough exactly if the last one is. -/
theorem forall_fieldsOfRun_width_iff {c : Char} (hc : c = 'e' ∨ c = 'c') {n : Nat} :
    (∀ f ∈ fieldsOfRun c n, 4 ≤ f.width) ↔ n % 6 ∉ [1, 2, 3] := by
  have hw : maxWidth? c = some 6 := by rcases hc with rfl | rfl <;> rfl
  simp only [mem_fieldsOfRun hw]
  constructor
  · intro h hleft
    have hlast := h ⟨c, n % 6⟩
    simp at hleft hlast
    omega
  · rintro h f (⟨rfl, -⟩ | ⟨rfl, hleft⟩)
    · simp
    · simp at h ⊢
      omega

/-- None of the fields is refused exactly if the pattern is supported. -/
theorem forall_not_refused_iff (h : fields text = .ok fs) :
    (∀ f ∈ fs, ∀ group, ¬ f.Refused group) ↔ Supported text := by
  have hletter (c : Char) := mem_activeLetters_iff h (c := c)
  obtain ⟨-, rfl⟩ := fields_eq_ok_iff.mp h
  simp only [DateTimeField.not_refused_iff]
  constructor
  · intro hfs
    constructor
    · intro c hc
      obtain ⟨f, hf, rfl⟩ := (hletter c).mp hc
      exact (hfs f hf).1
    · intro run hrun hweekday
      rw [← forall_fieldsOfRun_width_iff hweekday]
      intro f hf
      apply (hfs f (List.mem_flatMap.mpr ⟨run, hrun, hf⟩)).2
      rwa [letter_of_mem_fieldsOfRun hf]
  · intro hsupported f hf
    refine ⟨hsupported.letters f.letter ((hletter _).mpr ⟨f, hf, rfl⟩), fun hweekday => ?_⟩
    obtain ⟨run, hrun, hf⟩ := List.mem_flatMap.mp hf
    rw [letter_of_mem_fieldsOfRun hf] at hweekday
    exact (forall_fieldsOfRun_width_iff hweekday).mpr (hsupported.weekdays run hrun hweekday) f hf

/-- What the fields write into one record, one after the other, is what their settings give
when they are laid over each other. -/
theorem interpret_eq_layered (h : fields text = .ok fs) :
    interpret text = layered DateTimeFormatOptions.override {} DateTimeField.settings fs := by
  simp only [interpret, h, layered, DateTimeField.applyTo_eq]
  rfl

/-- A pattern is interpreted exactly if it is supported. -/
theorem exists_interpret_iff (h : fields text = .ok fs) :
    (∃ options, interpret text = .ok options) ↔ Supported text := by
  rw [interpret_eq_layered h, exists_layered_iff, ← forall_not_refused_iff h]
  simp only [DateTimeField.exists_settings_iff]

/-- Interpretation fails at the first refused field, with the group that it belongs to. -/
theorem interpret_eq_error_iff (h : fields text = .ok fs) {e : SkeletonError} :
    interpret text = .error e ↔ ∃ before f after group, fs = before ++ f :: after ∧
      (∀ g ∈ before, ∀ group, ¬ g.Refused group) ∧ f.Refused group ∧
        e = .unsupportedField f.letter group := by
  rw [interpret_eq_layered h, layered_eq_error_iff]
  simp only [DateTimeField.exists_settings_iff, DateTimeField.settings_eq_error_iff,
    exists_and_left]

/-- A setting has the value of the last field with one of its letters. -/
theorem get_of_interpret (h : fields text = .ok fs) {options : DateTimeFormatOptions}
    (hok : interpret text = .ok options) {α : Type} (k : DateTimeSetting α) :
    k.get options = (fs.filter (·.letter ∈ k.letters)).getLast?.map k.value := by
  rw [interpret_eq_layered h] at hok
  have hfields := exists_layered_iff.mp ⟨options, hok⟩
  have hsets (f : DateTimeField) (hf : f ∈ fs) : f.settings.toOption.bind k.get =
      if decide (f.letter ∈ k.letters) = true then (some ∘ k.value) f else none := by
    obtain ⟨options, hsettings⟩ := hfields f hf
    simp [hsettings, Except.toOption, DateTimeSetting.get_settings hsettings]
  rw [get_of_layered k.get_empty k.get_override hok, ← List.getLast?_filterMap,
    List.filterMap_congr hsets, ← List.filterMap_filter, List.filterMap_eq_map, List.getLast?_map]

/-- A setting is left out exactly if no active letter stands for it. -/
theorem get_eq_none_iff (h : fields text = .ok fs) {options : DateTimeFormatOptions}
    (hok : interpret text = .ok options) {α : Type} (k : DateTimeSetting α) :
    k.get options = none ↔ ∀ c ∈ activeLetters text, c ∉ k.letters := by
  rw [get_of_interpret h hok, Option.map_eq_none_iff, List.getLast?_eq_none_iff,
    List.filter_eq_nil_iff]
  simp [mem_activeLetters_iff h]

/-- The only value that a field gives to this setting is `true`. -/
theorem hour12_eq_some_true_iff (h : fields text = .ok fs) {options : DateTimeFormatOptions}
    (hok : interpret text = .ok options) :
    options.hour12 = some true ↔ 'a' ∈ activeLetters text := by
  have hnone := get_eq_none_iff h hok .hour12
  have hget := get_of_interpret h hok .hour12
  simp only [DateTimeSetting.get, DateTimeSetting.letters, List.mem_singleton] at hnone hget
  have htrue : options.hour12 ≠ some true ↔ options.hour12 = none := by
    rw [hget]
    generalize List.getLast? _ = last
    cases last <;> simp [DateTimeSetting.value]
  rw [← not_iff_not, ← List.forall_mem_ne', ← hnone, ← htrue]

/-- Patterns with a space in between are interpreted one after the other. -/
theorem interpret_append {x y : List Char} {a b : DateTimeFormatOptions}
    (hx : interpret x = .ok a) (hy : interpret y = .ok b) :
    interpret (x ++ ' ' :: y) = .ok (a.override b) := by
  obtain ⟨fs, hfs, -⟩ := bind_eq_ok hx
  obtain ⟨gs, hgs, -⟩ := bind_eq_ok hy
  rw [interpret_eq_layered hfs] at hx
  rw [interpret_eq_layered hgs] at hy
  rw [interpret_eq_layered (fields_append hfs hgs), layered_append, hx, hy]
  rfl

/-- A pattern whose quoted texts end is interpreted exactly if it is supported, and else
refused for its first refused field.  Each setting is left out or has the value of the last
field with one of its letters; so a pattern behind another one and a space is laid over it,
setting by setting. -/
theorem interpret_exact :
    (∀ text : List Char, Even (text.count '\'') → ∃ fs, fields text = .ok fs ∧
      ((∃ options, interpret text = .ok options) ↔ Supported text) ∧
      (∀ e, interpret text = .error e ↔ ∃ before f after group, fs = before ++ f :: after ∧
        (∀ g ∈ before, ∀ group, ¬ g.Refused group) ∧ f.Refused group ∧
          e = .unsupportedField f.letter group) ∧
      ∀ options, interpret text = .ok options →
        (∀ α (k : DateTimeSetting α),
          (k.get options = none ↔ ∀ c ∈ activeLetters text, c ∉ k.letters) ∧
          k.get options = (fs.filter (·.letter ∈ k.letters)).getLast?.map k.value) ∧
        (options.hour12 = some true ↔ 'a' ∈ activeLetters text)) ∧
    ∀ (x y : List Char) (a b : DateTimeFormatOptions),
      interpret x = .ok a → interpret y = .ok b →
        ∃ r, interpret (x ++ ' ' :: y) = .ok r ∧
          ∀ α (k : DateTimeSetting α), k.get r = (k.get b).or (k.get a) := by
  constructor
  · intro text heven
    have hfields := fields_eq_ok_iff.mpr ⟨heven, rfl⟩
    exact ⟨_, hfields, exists_interpret_iff hfields, fun e => interpret_eq_error_iff hfields,
      fun options hok =>
        ⟨fun α k => ⟨get_eq_none_iff hfields hok k, get_of_interpret hfields hok k⟩,
          hour12_eq_some_true_iff hfields hok⟩⟩
  · intro x y a b hx hy
    exact ⟨a.override b, interpret_append hx hy, fun α k => k.get_override a b⟩

/-- A quoted letter is not refused.  Of ten letters of the weekday the last four count, and
of three letters of the day the last one, until the pattern behind sets the day anew. -/
theorem interpret_exact_agenda :
    Even ("yMMMddd 'u' eeeeeeeeee".toList.count '\'') ∧
    Supported "yMMMddd 'u' eeeeeeeeee".toList ∧
    interpret "yMMMddd 'u' eeeeeeeeee".toList =
      .ok { year := some .numeric, month := some .short, day := some .numeric,
            weekday := some .long } ∧
    Even ("hh''a dd".toList.count '\'') ∧
    interpret "hh''a dd".toList =
      .ok { day := some .twoDigit, hour12 := some true, hourCycle := some .h12,
            hour := some .twoDigit } ∧
    'a' ∈ activeLetters "hh''a dd".toList ∧
    ∃ r, interpret ("yMMMddd 'u' eeeeeeeeee".toList ++ ' ' :: "hh''a dd".toList) = .ok r ∧
      ∀ α (k : DateTimeSetting α), k.get r =
        (k.get { day := some .twoDigit, hour12 := some true, hourCycle := some .h12,
                 hour := some .twoDigit }).or
          (k.get { year := some .numeric, month := some .short, day := some .numeric,
                   weekday := some .long }) := by
  have hfirst : interpret "yMMMddd 'u' eeeeeeeeee".toList =
      .ok { year := some .numeric, month := some .short, day := some .numeric,
            weekday := some .long } := rfl
  have hsecond : interpret "hh''a dd".toList =
      .ok { day := some .twoDigit, hour12 := some true, hourCycle := some .h12,
            hour := some .twoDigit } := rfl
  obtain ⟨-, -, hsupported, -⟩ :=
    interpret_exact.1 "yMMMddd 'u' eeeeeeeeee".toList (by decide)
  obtain ⟨_, -, -, -, hread⟩ := interpret_exact.1 "hh''a dd".toList (by decide)
  exact ⟨by decide, hsupported.mp ⟨_, hfirst⟩, hfirst, by decide, hsecond,
    (hread _ hsecond).2.mp rfl, interpret_exact.2 _ _ _ _ hfirst hsecond⟩

end DateTimeSkeleton

end MessagePattern
