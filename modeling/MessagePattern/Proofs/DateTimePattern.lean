/-
# What is wrong with a date-time pattern

A pattern is refused for one of two reasons: a quoted text in it does not end, or
it has a field that no option expresses.  The first never happens to the pattern
of a style, since a style with such a text is not read in the first place.  Both
the reader of styles and the reader of patterns pair up the apostrophes of a text
from left to right, though the one looks at braces as well and the other takes
two apostrophes in a row at once.
-/

import MessagePattern.Proofs.Canonical
import MessagePattern.Proofs.FieldSettings

namespace MessagePattern

namespace DateTimeSkeleton

/-- In a text that can stand as a style every quoted text ends. -/
theorem isSome_marks?_of_styleMatches {depth : Nat} {quoted : Bool} {text : List Char}
    (h : styleMatches depth quoted text = true) : (marks? quoted text).isSome = true := by
  fun_induction marks? quoted text generalizing depth with
  | case1 => simp [styleMatches] at h
  | case2 => rfl
  | case3 quoted text ih =>
      have hrest : styleMatches depth quoted text = true := by simpa [styleMatches] using h
      simpa using ih hrest
  | case4 quoted text _ ih =>
      have hrest : styleMatches depth (!quoted) text = true := by simpa [styleMatches] using h
      simpa using ih hrest
  | case5 quoted c text _ hquote ih =>
      -- A brace changes the number of open ones and nothing else.
      obtain ⟨depth', hrest⟩ : ∃ depth', styleMatches depth' quoted text = true := by
        unfold styleMatches at h
        rw [if_neg hquote] at h
        split at h
        · next hinside => exact ⟨depth, hinside ▸ h⟩
        next houtside =>
        rw [Bool.not_eq_true] at houtside
        subst houtside
        split at h
        · exact ⟨_, h⟩
        split at h
        · split at h
          · cases h
          · exact ⟨_, h⟩
        · exact ⟨_, h⟩
      simpa using ih hrest

/-- A pattern whose quoted texts all end has fields. -/
theorem exists_fields_of_styleMatches {pattern : List Char}
    (h : styleMatches 0 false pattern = true) : ∃ fs, fields pattern = .ok fs := by
  obtain ⟨marks, hmarks⟩ := Option.isSome_iff_exists.mp (isSome_marks?_of_styleMatches h)
  exact ⟨_, by rw [fields, hmarks]⟩

/-- The pattern of a style is refused only for a field of it. -/
theorem interpret_eq_error {pattern : List Char} {e : SkeletonError}
    (hmatch : styleMatches 0 false pattern = true) (h : interpret pattern = .error e) :
    ∃ letter group, e = .unsupportedField letter group := by
  obtain ⟨fs, hfs⟩ := exists_fields_of_styleMatches hmatch
  obtain ⟨-, f, -, group, -, -, -, he⟩ := (interpret_eq_error_iff hfs).mp h
  exact ⟨f.letter, group, he⟩

end DateTimeSkeleton

end MessagePattern
