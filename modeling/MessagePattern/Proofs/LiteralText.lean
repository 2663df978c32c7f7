/-
# Literal text, quoted and read

Writing a literal doubles its apostrophes and puts one quoted run around
everything from its first to its last syntax character.  The proof that this
reads back follows the text through three stretches: in front of the quoted run
and behind it nothing is syntax, and inside it nothing is looked at but
apostrophes.  The delicate point is the closing apostrophe, which may be followed
by doubled ones: the reader pairs them up the other way round and still finds the
same number.
-/

import MessagePattern.Printer
import MessagePattern.Reader.Literal

namespace MessagePattern

/-! ## The reader, one step at a time -/

section Steps

variable (o : ParseOptions) (s : Scope)

theorem literalText_pair (quoted : Bool) (text : List Char) :
    literalText o s quoted ('\'' :: '\'' :: text) =
      ('\'' :: (literalText o s quoted text).1, (literalText o s quoted text).2 + 2) := by
  cases quoted <;> simp [literalText]

theorem literalText_quoted {c : Char} (hc : c ≠ '\'') (text : List Char) :
    literalText o s true (c :: text) =
      (c :: (literalText o s true text).1, (literalText o s true text).2 + 1) := by
  rw [literalText]
  · simp [hc]
  · rintro rest rfl
    exact absurd rfl hc

theorem literalText_close {text : List Char} (h : text.head? ≠ some '\'') :
    literalText o s true ('\'' :: text) =
      ((literalText o s false text).1, (literalText o s false text).2 + 1) := by
  rw [literalText]
  · simp
  · rintro rest - rfl
    exact absurd rfl h

theorem literalText_open {text : List Char} (h : text.head?.any s.opensQuote = true) :
    literalText o s false ('\'' :: text) =
      ((literalText o s true text).1, (literalText o s true text).2 + 1) := by
  rw [literalText]
  · simp [h]
  · rintro rest - rfl
    simp [Scope.opensQuote] at h

theorem literalText_plain {c : Char} {text : List Char}
    (hpair : ¬ (c = '\'' ∧ text.head? = some '\''))
    (hopen : ¬ (c = '\'' ∧ text.head?.any s.opensQuote = true))
    (hends : Scope.endsLiteral o s c text = false) :
    literalText o s false (c :: text) =
      (c :: (literalText o s false text).1, (literalText o s false text).2 + 1) := by
  rw [literalText]
  · simp only [if_neg hopen, hends, Bool.false_eq_true, if_false]
  · rintro rest rfl rfl
    exact hpair ⟨rfl, rfl⟩

theorem literalText_stop {c : Char} {text : List Char}
    (hends : Scope.endsLiteral o s c text = true) :
    literalText o s false (c :: text) = ([], 0) := by
  have hc : c ≠ '\'' := by
    rintro rfl
    simp [Scope.endsLiteral] at hends
  rw [literalText]
  · simp [hc, hends]
  · rintro rest rfl
    exact absurd rfl hc

end Steps

/-- What follows a literal ends it. -/
def EndsLiteral (o : ParseOptions) (s : Scope) : List Char → Prop
  | [] => True
  | c :: text => Scope.endsLiteral o s c text = true

theorem literalText_of_endsLiteral {o : ParseOptions} {s : Scope} {tail : List Char}
    (h : EndsLiteral o s tail) : literalText o s false tail = ([], 0) := by
  cases tail with
  | nil => rfl
  | cons c text => exact literalText_stop o s h

/-- Nothing that ends a literal could have been part of a tag or of a pair. -/
theorem EndsLiteral.head {o : ParseOptions} {s : Scope} {tail : List Char}
    (h : EndsLiteral o s tail) : tail.head? ≠ some '\'' ∧ tail.head?.any isTagStart = false := by
  cases tail with
  | nil => simp
  | cons c text =>
      simp only [EndsLiteral, Scope.endsLiteral] at h
      split at h
      · simp; decide
      · simp; decide
      · simp; decide
      · simp; decide
      · cases h

/-! ## Where a literal begins and ends -/

/-- A literal that begins says something. -/
theorem literalText_ne_nil {o : ParseOptions} {s : Scope} {text : List Char}
    (h : ¬ EndsLiteral o s text) : (literalText o s false text).1 ≠ [] := by
  cases text with
  | nil => exact absurd trivial h
  | cons c text =>
      simp only [EndsLiteral, Bool.not_eq_true] at h
      by_cases hpair : c = '\'' ∧ text.head? = some '\''
      · obtain ⟨rfl, hhead⟩ := hpair
        obtain ⟨rest, rfl⟩ : ∃ rest, text = '\'' :: rest := by
          cases text <;> simp_all
        simp [literalText_pair]
      by_cases hopen : c = '\'' ∧ text.head?.any s.opensQuote = true
      · -- What opens the quoted run is the first thing that is said.
        obtain ⟨rfl, hhead⟩ := hopen
        cases text with
        | nil => cases hhead
        | cons d text =>
            have hd : d ≠ '\'' := by
              rintro rfl
              simp [Scope.opensQuote] at hhead
            rw [literalText_open o s hhead, literalText_quoted o s hd]
            simp
      · rw [literalText_plain o s hpair hopen h]
        simp

/-- What follows a literal ends it. -/
theorem endsLiteral_drop_literalText (o : ParseOptions) (s : Scope) (quoted : Bool)
    (text : List Char) : EndsLiteral o s (text.drop (literalText o s quoted text).2) := by
  fun_induction literalText o s quoted text with
  | case1 => trivial
  | case2 quoted text said n hsaid ih => simpa [hsaid] using ih
  | case3 text said n hsaid _ ih => simpa [hsaid] using ih
  | case4 c text _ _ said n hsaid ih => simpa [hsaid] using ih
  | case5 c text _ _ said n hsaid ih => simpa [hsaid] using ih
  | case6 c text _ _ hends => exact hends
  | case7 c text _ _ _ said n hsaid ih => simpa [hsaid] using ih

/-- What is said takes at least as many scalars to say. -/
theorem length_literalText_le (o : ParseOptions) (s : Scope) (quoted : Bool) (text : List Char) :
    (literalText o s quoted text).1.length ≤ (literalText o s quoted text).2 := by
  fun_induction literalText o s quoted text with
  | case1 | case6 => exact Nat.le_refl _
  | case2 quoted text said n hsaid ih =>
      simp only [hsaid, List.length_cons] at ih ⊢
      omega
  | case3 text said n hsaid _ ih | case5 c text _ _ said n hsaid ih =>
      rw [hsaid] at ih
      exact Nat.le_succ_of_le ih
  | case4 c text _ _ said n hsaid ih | case7 c text _ _ _ said n hsaid ih =>
      rw [hsaid] at ih
      exact Nat.succ_le_succ ih

theorem literalText_le_length (o : ParseOptions) (s : Scope) (quoted : Bool) (text : List Char) :
    (literalText o s quoted text).2 ≤ text.length := by
  fun_induction literalText o s quoted text with
  | case1 => exact Nat.le_refl _
  | case2 quoted text said n hsaid ih => simpa [hsaid] using ih
  | case6 => exact Nat.zero_le _
  | case3 text said n hsaid _ ih | case4 c text _ _ said n hsaid ih
  | case5 c text _ _ said n hsaid ih | case7 c text _ _ _ said n hsaid ih =>
      simpa [hsaid] using ih

/-- An ending of a literal is one whatever follows. -/
theorem Scope.endsLiteral_append {o : ParseOptions} {s : Scope} {c : Char} {text : List Char}
    (h : Scope.endsLiteral o s c text = true) (tail : List Char) :
    Scope.endsLiteral o s c (text ++ tail) = true := by
  unfold Scope.endsLiteral at h ⊢
  split at h
  · rfl
  · exact h
  · exact h
  · cases text with
    | nil => simp at h
    | cons d text => exact h
  · cases h

/-- In front of a tail it only seems that a literal ends if the tail makes the
last angle bracket a tag. -/
theorem Scope.endsLiteral_of_append {o : ParseOptions} {s : Scope} {c : Char}
    {text tail : List Char}
    (hapart : (c :: text).getLast? = some '<' → tail.head?.any isTagStart = false)
    (h : Scope.endsLiteral o s c (text ++ tail) = true) :
    Scope.endsLiteral o s c text = true := by
  unfold Scope.endsLiteral at h ⊢
  split at h
  · rfl
  · exact h
  · exact h
  · cases text with
    | nil => simp [hapart rfl] at h
    | cons d text => exact h
  · cases h

/-- An apostrophe that is all there is to a literal is neither one of a pair nor
in front of quoted text. -/
theorem head?_of_literalText_le_one {o : ParseOptions} {s : Scope} {quoted : Bool}
    {tail : List Char} (h : (literalText o s quoted ('\'' :: tail)).2 ≤ 1) :
    tail.head? ≠ some '\'' ∧ (quoted = false → tail.head?.any s.opensQuote = false) := by
  constructor
  · intro hhead
    obtain ⟨rest, rfl⟩ := List.head?_eq_some_iff.mp hhead
    rw [literalText_pair] at h
    omega
  · rintro rfl
    rw [Bool.eq_false_iff]
    intro hopen
    rw [literalText_open o s hopen] at h
    cases tail with
    | nil => cases hopen
    | cons d tail =>
        have hd : d ≠ '\'' := by
          rintro rfl
          simp [Scope.opensQuote] at hopen
        rw [literalText_quoted o s hd] at h
        omega

/-- A literal that ends within a text is read from it alone, unless an angle
bracket is parted from what makes it a tag. -/
theorem literalText_of_append {o : ParseOptions} {s : Scope} {quoted : Bool}
    {text tail : List Char}
    (hapart : text.getLast? = some '<' → tail.head?.any isTagStart = false)
    (h : (literalText o s quoted (text ++ tail)).2 ≤ text.length) :
    literalText o s quoted text = literalText o s quoted (text ++ tail) := by
  have hlast {c : Char} {text : List Char}
      (hapart : (c :: text).getLast? = some '<' → tail.head?.any isTagStart = false) :
      text.getLast? = some '<' → tail.head?.any isTagStart = false := by
    intro hbracket
    apply hapart
    rw [List.getLast?_cons, hbracket]
    rfl
  fun_induction literalText o s quoted text with
  | case1 quoted =>
      have hsaid := length_literalText_le o s quoted tail
      have hnone : (literalText o s quoted tail).2 = 0 := Nat.le_zero.mp h
      rw [hnone, Nat.le_zero, List.length_eq_zero_iff] at hsaid
      exact (Prod.ext hsaid hnone).symm
  | case2 quoted text said n hsaid ih =>
      simp only [List.cons_append, literalText_pair, List.length_cons, Nat.add_le_add_iff_right]
        at h ⊢
      rw [← ih (hlast (hlast hapart)) h, hsaid]
  | case3 text said n hsaid hpair ih =>
      rw [List.cons_append] at h ⊢
      have hhead : (text ++ tail).head? ≠ some '\'' := by
        cases text with
        | nil => exact (head?_of_literalText_le_one h).1
        | cons d text =>
            intro heq
            exact hpair text rfl (congrArg (· :: text) (Option.some.inj heq))
      rw [literalText_close o s hhead] at h ⊢
      rw [← ih (hlast hapart) (Nat.le_of_succ_le_succ h), hsaid]
  | case4 c text hpair hc said n hsaid ih =>
      rw [List.cons_append, literalText_quoted o s hc] at h ⊢
      rw [← ih (hlast hapart) (Nat.le_of_succ_le_succ h), hsaid]
  | case5 c text hpair hopen said n hsaid ih =>
      obtain ⟨rfl, hopen⟩ := hopen
      have hmore : (text ++ tail).head?.any s.opensQuote = true := by
        cases text with
        | nil => cases hopen
        | cons d text => exact hopen
      rw [List.cons_append, literalText_open o s hmore] at h ⊢
      rw [← ih (hlast hapart) (Nat.le_of_succ_le_succ h), hsaid]
  | case6 c text hpair hopen hends =>
      rw [List.cons_append, literalText_stop o s (Scope.endsLiteral_append hends tail)]
  | case7 c text hpair hopen hends said n hsaid ih =>
      -- Only where the text is a single apostrophe does the tail have a say.
      have hpair' : ¬ (c = '\'' ∧ (text ++ tail).head? = some '\'') := by
        rintro ⟨rfl, hhead⟩
        cases text with
        | nil => exact (head?_of_literalText_le_one h).1 hhead
        | cons d text => exact hpair text rfl (congrArg (· :: text) (Option.some.inj hhead))
      have hopen' : ¬ (c = '\'' ∧ (text ++ tail).head?.any s.opensQuote = true) := by
        rintro ⟨rfl, hhead⟩
        cases text with
        | nil => exact Bool.eq_false_iff.mp ((head?_of_literalText_le_one h).2 rfl) hhead
        | cons d text => exact hopen ⟨rfl, hhead⟩
      have hends' : Scope.endsLiteral o s c (text ++ tail) = false := by
        rw [Bool.eq_false_iff]
        exact fun hmore => hends (Scope.endsLiteral_of_append hapart hmore)
      rw [List.cons_append, literalText_plain o s hpair' hopen' hends'] at h ⊢
      rw [← ih (hlast hapart) (Nat.le_of_succ_le_succ h), hsaid]

/-! ## Texts without syntax -/

/-- No scalar of the text would be read as syntax. -/
def IsPlain (inPlural : Bool) : List Char → Prop
  | [] => True
  | c :: text => opensSyntax inPlural (c :: text) = false ∧ IsPlain inPlural text

theorem opensSyntax_of_endsLiteral {o : ParseOptions} {s : Scope} {c : Char} {text : List Char}
    (h : Scope.endsLiteral o s c text = true) : opensSyntax s.plural (c :: text) = true := by
  unfold Scope.endsLiteral at h
  split at h <;> simp_all [opensSyntax]

/-- Of what follows a scalar, only the beginning of a tag makes it syntax. -/
theorem opensSyntax_mono {inPlural : Bool} {c : Char} {first second : List Char}
    (h : opensSyntax inPlural (c :: first) = false)
    (hhead : second.head?.any isTagStart = true → first.head?.any isTagStart = true) :
    opensSyntax inPlural (c :: second) = false := by
  simp only [opensSyntax, Bool.or_eq_false_iff, Bool.and_eq_false_imp] at h ⊢
  refine ⟨h.1, fun hc => ?_⟩
  rw [Bool.eq_false_iff]
  exact fun hsecond => Bool.eq_false_iff.mp (h.2 hc) (hhead hsecond)

theorem head?_doubleApostrophes (text : List Char) :
    (doubleApostrophes text).head? = text.head? := by
  cases text with
  | nil => rfl
  | cons c text =>
      rw [doubleApostrophes]
      split
      · next hc => simp [hc]
      · rfl

theorem doubleApostrophes_eq_nil {text : List Char} :
    doubleApostrophes text = [] ↔ text = [] := by
  cases text with
  | nil => simp [doubleApostrophes]
  | cons c text =>
      rw [doubleApostrophes]
      split <;> simp

/-- Doubled apostrophes in a text without syntax are read one for two. -/
theorem literalText_double_plain {o : ParseOptions} {s : Scope} {text tail : List Char}
    (h : IsPlain s.plural text) (htail : tail.head?.any isTagStart = false) :
    literalText o s false (doubleApostrophes text ++ tail) =
      (text ++ (literalText o s false tail).1,
        (doubleApostrophes text).length + (literalText o s false tail).2) := by
  induction text with
  | nil => simp [doubleApostrophes]
  | cons c text ih =>
      obtain ⟨hopens, hplain⟩ := h
      by_cases hc : c = '\''
      · subst hc
        simp only [doubleApostrophes, if_true, List.cons_append, literalText_pair, ih hplain,
          List.length_cons, Prod.mk.injEq, true_and]
        omega
      · have hends : Scope.endsLiteral o s c (doubleApostrophes text ++ tail) = false := by
          rw [Bool.eq_false_iff]
          intro hends
          refine Bool.eq_false_iff.mp ?_ (opensSyntax_of_endsLiteral hends)
          refine opensSyntax_mono hopens fun hstart => ?_
          rw [List.head?_append, head?_doubleApostrophes] at hstart
          cases text with
          | nil => exact absurd hstart (by simp [htail])
          | cons d text => simpa using hstart
        simp only [doubleApostrophes, if_neg hc, List.cons_append,
          literalText_plain o s (fun hboth => hc hboth.1) (fun hboth => hc hboth.1) hends,
          ih hplain, List.length_cons, Prod.mk.injEq, true_and]
        omega

/-- The apostrophe that ends a quoted run may be followed by doubled ones.  The
reader takes the pairs from the left and so ends the run behind them, which comes
to the same. -/
theorem literalText_close_double {o : ParseOptions} {s : Scope} {text tail : List Char}
    (htail : tail.head? ≠ some '\'') :
    literalText o s true ('\'' :: (doubleApostrophes text ++ tail)) =
      ((literalText o s false (doubleApostrophes text ++ tail)).1,
        (literalText o s false (doubleApostrophes text ++ tail)).2 + 1) := by
  induction text with
  | nil => exact literalText_close o s htail
  | cons c text ih =>
      by_cases hc : c = '\''
      · subst hc
        simp only [doubleApostrophes, if_true, List.cons_append, literalText_pair, ih]
      · apply literalText_close
        simp [doubleApostrophes, hc]

/-- Inside a quoted run only apostrophes are looked at. -/
theorem literalText_double_quoted {o : ParseOptions} {s : Scope} {run tail : List Char} :
    literalText o s true (doubleApostrophes run ++ tail) =
      (run ++ (literalText o s true tail).1,
        (doubleApostrophes run).length + (literalText o s true tail).2) := by
  induction run with
  | nil => simp [doubleApostrophes]
  | cons c run ih =>
      by_cases hc : c = '\''
      · subst hc
        simp only [doubleApostrophes, if_true, List.cons_append, literalText_pair, ih,
          List.length_cons, Prod.mk.injEq, true_and]
        omega
      · simp only [doubleApostrophes, if_neg hc, List.cons_append, literalText_quoted o s hc, ih,
          List.length_cons, Prod.mk.injEq, true_and]
        omega

/-! ## Where the quoted run is put -/

theorem opensSyntax_double (inPlural : Bool) (text : List Char) :
    opensSyntax inPlural (doubleApostrophes text) = opensSyntax inPlural text := by
  cases text with
  | nil => rfl
  | cons c text =>
      by_cases hc : c = '\''
      · subst hc
        simp [doubleApostrophes, opensSyntax]
      · simp [doubleApostrophes, hc, opensSyntax, head?_doubleApostrophes]

/-- In front of the first syntax character there is none. -/
theorem splitBeforeSyntax_spec {inPlural : Bool} {text plain rest : List Char}
    (h : splitBeforeSyntax inPlural text = (plain, rest)) :
    text = plain ++ rest ∧ IsPlain inPlural plain ∧
      (rest = [] ∨ opensSyntax inPlural rest = true) := by
  induction text generalizing plain with
  | nil =>
      cases h
      exact ⟨rfl, trivial, .inl rfl⟩
  | cons c text ih =>
      rw [splitBeforeSyntax] at h
      split at h
      · next hopens =>
          cases h
          exact ⟨rfl, trivial, .inr hopens⟩
      · next hopens =>
          cases h
          obtain ⟨htext, hplain, hrest⟩ := ih rfl
          refine ⟨by rw [List.cons_append, ← htext], ⟨?_, hplain⟩, hrest⟩
          refine opensSyntax_mono (Bool.not_eq_true _ ▸ hopens) fun hstart => ?_
          rw [htext, List.head?_append]
          cases hplainHead : (splitBeforeSyntax inPlural text).1.head? with
          | none => simp [hplainHead] at hstart
          | some d => simpa [hplainHead] using hstart

/-- Behind the last syntax character there is none. -/
theorem splitAfterSyntax_spec {inPlural : Bool} {text run rest : List Char}
    (h : splitAfterSyntax inPlural text = (run, rest)) :
    text = run ++ rest ∧ IsPlain inPlural rest ∧
      (run = [] → opensSyntax inPlural text = false) := by
  induction text generalizing run rest with
  | nil =>
      cases h
      exact ⟨rfl, trivial, fun _ => rfl⟩
  | cons c text ih =>
      rw [splitAfterSyntax] at h
      split at h
      · next rest' hsplit =>
          obtain ⟨htext, hplain, -⟩ := ih hsplit
          split at h
          · cases h
            exact ⟨by rw [htext]; rfl, hplain, fun hnil => by cases hnil⟩
          · next hopens =>
              cases h
              rw [Bool.not_eq_true] at hopens
              rw [List.nil_append] at htext
              subst htext
              exact ⟨rfl, ⟨hopens, hplain⟩, fun _ => hopens⟩
      · next d run' rest' hsplit =>
          cases h
          obtain ⟨htext, hplain, -⟩ := ih hsplit
          exact ⟨by rw [htext]; rfl, hplain, fun hnil => by cases hnil⟩

theorem splitBeforeSyntax_double (inPlural : Bool) (text : List Char) :
    splitBeforeSyntax inPlural (doubleApostrophes text) =
      (doubleApostrophes (splitBeforeSyntax inPlural text).1,
        doubleApostrophes (splitBeforeSyntax inPlural text).2) := by
  induction text with
  | nil => rfl
  | cons c text ih =>
      have hopens := opensSyntax_double inPlural (c :: text)
      by_cases hc : c = '\''
      · subst hc
        simp [doubleApostrophes, splitBeforeSyntax, opensSyntax, ih]
      · simp only [doubleApostrophes, if_neg hc] at hopens ⊢
        rw [splitBeforeSyntax, hopens, splitBeforeSyntax]
        split <;> simp [doubleApostrophes, hc, ih]

theorem splitAfterSyntax_cons_of_run {inPlural : Bool} {c : Char} {text : List Char}
    (h : (splitAfterSyntax inPlural text).1 ≠ []) :
    splitAfterSyntax inPlural (c :: text) =
      (c :: (splitAfterSyntax inPlural text).1, (splitAfterSyntax inPlural text).2) := by
  rw [splitAfterSyntax]
  split
  · next hsplit => exact absurd (congrArg Prod.fst hsplit) h
  · next hsplit => rw [hsplit]

theorem splitAfterSyntax_cons_of_nil {inPlural : Bool} {c : Char} {text : List Char}
    (h : (splitAfterSyntax inPlural text).1 = []) :
    splitAfterSyntax inPlural (c :: text) =
      if opensSyntax inPlural (c :: text) then ([c], (splitAfterSyntax inPlural text).2)
      else ([], c :: (splitAfterSyntax inPlural text).2) := by
  rw [splitAfterSyntax]
  split
  · next hsplit => rw [hsplit]
  · next hsplit =>
      rw [hsplit] at h
      cases h

theorem splitAfterSyntax_double (inPlural : Bool) (text : List Char) :
    splitAfterSyntax inPlural (doubleApostrophes text) =
      (doubleApostrophes (splitAfterSyntax inPlural text).1,
        doubleApostrophes (splitAfterSyntax inPlural text).2) := by
  induction text with
  | nil => rfl
  | cons c text ih =>
      have hopens := opensSyntax_double inPlural (c :: text)
      have hdouble : doubleApostrophes (c :: text) =
          if c = '\'' then '\'' :: '\'' :: doubleApostrophes text
          else c :: doubleApostrophes text := rfl
      by_cases hrun : (splitAfterSyntax inPlural text).1 = []
      · have hrunDouble : (splitAfterSyntax inPlural (doubleApostrophes text)).1 = [] := by
          rw [ih, hrun]
          rfl
        by_cases hc : c = '\''
        · subst hc
          have hstep : splitAfterSyntax inPlural ('\'' :: doubleApostrophes text) =
              ([], '\'' :: doubleApostrophes (splitAfterSyntax inPlural text).2) := by
            rw [splitAfterSyntax_cons_of_nil hrunDouble, ih]
            simp [opensSyntax]
          rw [hdouble, if_pos rfl, splitAfterSyntax_cons_of_nil (by rw [hstep]), hstep,
            splitAfterSyntax_cons_of_nil hrun]
          simp [opensSyntax, doubleApostrophes]
        · rw [hdouble, if_neg hc] at hopens ⊢
          rw [splitAfterSyntax_cons_of_nil hrunDouble, splitAfterSyntax_cons_of_nil hrun, hopens,
            ih]
          split <;> simp [doubleApostrophes, hc]
      · have hrunDouble : (splitAfterSyntax inPlural (doubleApostrophes text)).1 ≠ [] := by
          rw [ih]
          exact fun hnil => hrun (doubleApostrophes_eq_nil.mp hnil)
        by_cases hc : c = '\''
        · subst hc
          rw [hdouble, if_pos rfl, splitAfterSyntax_cons_of_run,
            splitAfterSyntax_cons_of_run hrunDouble, splitAfterSyntax_cons_of_run hrun, ih]
          · simp [doubleApostrophes]
          · rw [splitAfterSyntax_cons_of_run hrunDouble]
            simp
        · rw [hdouble, if_neg hc, splitAfterSyntax_cons_of_run hrunDouble,
            splitAfterSyntax_cons_of_run hrun, ih]
          simp [doubleApostrophes, hc]

/-- A text that is quoted is either plain and only doubled, or has a quoted run
between two plain parts. -/
theorem quoteSyntax_double (inPlural : Bool) (text : List Char) :
    (IsPlain inPlural text ∧
        quoteSyntax inPlural (doubleApostrophes text) = doubleApostrophes text) ∨
      ∃ before run after, text = before ++ (run ++ after) ∧ IsPlain inPlural before ∧
        IsPlain inPlural after ∧ opensSyntax inPlural (run ++ after) = true ∧ run ≠ [] ∧
        quoteSyntax inPlural (doubleApostrophes text) =
          doubleApostrophes before ++
            '\'' :: (doubleApostrophes run ++ '\'' :: doubleApostrophes after) := by
  cases hbefore : splitBeforeSyntax inPlural text with
  | mk before rest =>
  cases hafter : splitAfterSyntax inPlural rest with
  | mk run after =>
  obtain ⟨rfl, hplain, hrest⟩ := splitBeforeSyntax_spec hbefore
  obtain ⟨rfl, hplainAfter, hrun⟩ := splitAfterSyntax_spec hafter
  have hquote : quoteSyntax inPlural (doubleApostrophes (before ++ (run ++ after))) =
      match doubleApostrophes run with
      | [] => doubleApostrophes (before ++ (run ++ after))
      | _ :: _ => doubleApostrophes before ++
          '\'' :: (doubleApostrophes run ++ '\'' :: doubleApostrophes after) := by
    simp only [quoteSyntax, splitBeforeSyntax_double, hbefore, splitAfterSyntax_double, hafter]
    cases doubleApostrophes run <;> rfl
  cases run with
  | nil =>
      left
      rcases hrest with hnil | hopens
      · rw [hnil, List.append_nil] at hquote ⊢
        exact ⟨hplain, hquote⟩
      · rw [hrun rfl] at hopens
        cases hopens
  | cons c run =>
      right
      refine ⟨before, c :: run, after, rfl, hplain, hplainAfter, ?_, by simp, ?_⟩
      · exact hrest.resolve_left (by simp)
      · rw [hquote]
        split
        · next hnil => simp [doubleApostrophes_eq_nil] at hnil
        · rfl

/-! ## Self-closing tags -/

theorem isSelfClosingTag_iff {text : List Char} :
    isSelfClosingTag text = true ↔
      ∃ name, text = '<' :: (name ++ ['/', '>']) ∧ isTagName name = true := by
  constructor
  · intro h
    unfold isSelfClosingTag at h
    split at h
    · next text =>
        simp only [Bool.and_eq_true, beq_iff_eq] at h
        refine ⟨text.take (text.length - 2), ?_, h.2⟩
        rw [← h.1, List.take_append_drop]
    · cases h
  · rintro ⟨name, rfl, hname⟩
    simp [isSelfClosingTag, hname]

/-- Tag names hold nothing that a literal looks at. -/
theorem isTagName_not_mem {name : List Char} (h : isTagName name = true) {c : Char}
    (hletter : isTagLetter c = false) (hname : isTagNameChar c = false) : c ∉ name := by
  cases name with
  | nil => simp
  | cons d name =>
      simp only [isTagName, Bool.and_eq_true, List.all_eq_true] at h
      intro hmem
      rcases List.mem_cons.mp hmem with rfl | hmem
      · simp [h.1] at hletter
      · simp [h.2 c hmem] at hname

/-- Behind its angle bracket a self-closing tag holds no syntax but its end. -/
theorem not_mem_of_isTagName {name : List Char} (h : isTagName name = true) {c : Char}
    (hc : c ∈ ['\'', '<', '{', '}', '#']) : c ∉ name ++ ['/', '>'] := by
  have hsyntax : ['\'', '<', '{', '}', '#'].all (fun c =>
      !isTagLetter c && !isTagNameChar c && decide (c ∉ ['/', '>'])) = true := by decide
  have hnone := List.all_eq_true.mp hsyntax c hc
  simp only [Bool.and_eq_true, Bool.not_eq_true', decide_eq_true_eq] at hnone
  rw [List.mem_append, not_or]
  exact ⟨isTagName_not_mem h hnone.1.1 hnone.1.2, hnone.2⟩

theorem not_mem_selfClosing {name : List Char} (h : isTagName name = true) {c : Char}
    (hc : c ∈ ['\'', '<', '{', '}', '#']) (hbracket : c ≠ '<') :
    c ∉ '<' :: (name ++ ['/', '>']) :=
  List.not_mem_cons_of_ne_of_not_mem hbracket (not_mem_of_isTagName h hc)

/-- A name of a tag begins with a letter. -/
theorem head?_append_of_isTagName {name : List Char} (h : isTagName name = true)
    (tail : List Char) : (name ++ tail).head?.any isTagLetter = true := by
  cases name with
  | nil => cases h
  | cons letter name =>
      simp only [isTagName, Bool.and_eq_true] at h
      exact h.1

/-- A tag ends a literal. -/
theorem endsLiteral_tag {o : ParseOptions} (s : Scope) (htags : o.ignoreTag = false)
    {name : List Char} (hname : isTagName name = true) (tail : List Char) :
    EndsLiteral o s ('<' :: (name ++ tail)) := by
  have hletter := head?_append_of_isTagName hname tail
  cases hhead : (name ++ tail).head? with
  | none => simp [hhead] at hletter
  | some letter =>
      rw [hhead, Option.any_some] at hletter
      simp [EndsLiteral, Scope.endsLiteral, htags, hhead, isTagStart, hletter]

/-- Where tags are not read, a text without apostrophes, braces and number signs
is read as it stands. -/
theorem literalText_raw {o : ParseOptions} {s : Scope} (hignore : o.ignoreTag = true)
    {text tail : List Char} (hquote : '\'' ∉ text) (hopen : '{' ∉ text) (hclose : '}' ∉ text)
    (hpound : '#' ∉ text) :
    literalText o s false (text ++ tail) =
      (text ++ (literalText o s false tail).1, text.length + (literalText o s false tail).2) := by
  induction text with
  | nil => simp
  | cons c text ih =>
      simp only [List.mem_cons, not_or] at hquote hopen hclose hpound
      have hends : Scope.endsLiteral o s c (text ++ tail) = false := by
        unfold Scope.endsLiteral
        split <;> simp_all
      rw [List.cons_append, literalText_plain o s (fun h => hquote.1 h.1.symm)
        (fun h => hquote.1 h.1.symm) hends, ih hquote.2 hopen.2 hclose.2 hpound.2]
      simp only [List.cons_append, List.length_cons, Prod.mk.injEq, true_and]
      omega

/-! ## Literals that are written are read back -/

theorem opensQuote_of_opensSyntax {s : Scope} {text : List Char}
    (h : opensSyntax s.plural text = true) : text.head?.any s.opensQuote = true := by
  cases text with
  | nil => cases h
  | cons c text =>
      simp only [opensSyntax, Bool.or_eq_true, Bool.and_eq_true, beq_iff_eq] at h
      simp only [List.head?_cons, Option.any_some, Scope.opensQuote, Bool.or_eq_true,
        Bool.and_eq_true, beq_iff_eq]
      grind

theorem literalText_quoteSyntax {o : ParseOptions} {s : Scope} {text tail : List Char}
    (htail : EndsLiteral o s tail) :
    literalText o s false (quoteSyntax s.plural (doubleApostrophes text) ++ tail) =
      (text, (quoteSyntax s.plural (doubleApostrophes text)).length) := by
  have hend := literalText_of_endsLiteral htail
  obtain ⟨hquote, hstart⟩ := htail.head
  rcases quoteSyntax_double s.plural text with
    ⟨hplain, heq⟩ | ⟨before, run, after, rfl, hbefore, hafter, hopens, hrun, heq⟩
  · rw [heq, literalText_double_plain hplain hstart, hend]
    simp
  · have hafterText : literalText o s false (doubleApostrophes after ++ tail) =
        (after, (doubleApostrophes after).length) := by
      rw [literalText_double_plain hafter hstart, hend]
      simp
    have hopen : (doubleApostrophes run ++
        '\'' :: (doubleApostrophes after ++ tail)).head?.any s.opensQuote = true := by
      have hhead := opensQuote_of_opensSyntax hopens
      obtain ⟨c, run, rfl⟩ := List.exists_cons_of_ne_nil hrun
      simpa [List.head?_append, head?_doubleApostrophes] using hhead
    have hcut : quoteSyntax s.plural (doubleApostrophes (before ++ (run ++ after))) ++ tail =
        doubleApostrophes before ++ '\'' :: (doubleApostrophes run ++
          '\'' :: (doubleApostrophes after ++ tail)) := by
      rw [heq]
      simp
    rw [hcut, literalText_double_plain hbefore rfl, literalText_open o s hopen,
      literalText_double_quoted, literalText_close_double hquote, hafterText, heq]
    simp only [List.length_append, List.length_cons]

/-- A written literal reads back, up to where something ends it.  Self-closing
tags are excepted where tags are read: there they are no literal text. -/
theorem literalText_render {o : ParseOptions} {s : Scope} {text tail : List Char}
    (hraw : isSelfClosingTag text = true → o.ignoreTag = true) (htail : EndsLiteral o s tail) :
    literalText o s false (renderLiteral s.plural text ++ tail) =
      (text, (renderLiteral s.plural text).length) := by
  unfold renderLiteral
  split
  · next hself =>
      obtain ⟨name, rfl, hname⟩ := isSelfClosingTag_iff.mp hself
      rw [literalText_raw (hraw hself) (not_mem_selfClosing hname (by decide) (by decide))
        (not_mem_selfClosing hname (by decide) (by decide))
        (not_mem_selfClosing hname (by decide) (by decide))
        (not_mem_selfClosing hname (by decide) (by decide)), literalText_of_endsLiteral htail]
      simp
  · exact literalText_quoteSyntax htail

end MessagePattern
