import ThemeSheet.Proofs.Css.Plain
import ThemeSheet.Proofs.Results

/-!
# Lexemes of plain texts

The lexer goes through a text step by step, so what a step makes of a plain text is known of all of
it. A step fails only on a text with more digits in a row than an integer may have. In a plain text
without comments no function is opened and every mark is among the lexemes. If such a text has
neither marks nor equals signs, its lexemes are calm, and a semicolon after it is a lexeme of its
own.

## Main definitions

* `HasLongRun`, of a text with more digits in a row than an integer may have;
* `HasComment`.

## Main results

* `meets_lexemes`: what every step keeps to;
* `lexemes_plain`: the lexemes of a plain text;
* `exists_lexemes_calm`: the lexemes of a calm text and a semicolon.
-/

namespace ThemeSheet.Css

open Result (Meets meets_error meets_ok)
open Text (isAsciiDigit)

/-- More digits stand in a row than an integer may have. -/
def HasLongRun (cs : List Char) : Prop :=
  ∃ run, run <:+: cs ∧ (∀ d ∈ run, isAsciiDigit d = true) ∧ Decimal.integerDigitLimit < run.length

/-- A comment begins somewhere. -/
def HasComment (cs : List Char) : Prop := ['/', '*'] <:+: cs

section

variable {c : Char} {cs rest : List Char}

theorem HasLongRun.mono (h : HasLongRun rest) (hsub : rest <:+: cs) : HasLongRun cs := by
  obtain ⟨run, hrun, hdigits, hlong⟩ := h
  exact ⟨run, hrun.trans hsub, hdigits, hlong⟩

/-- What is part of a text with one more character, which it has not, is part of the text. -/
theorem isInfix_of_append_singleton {u : List Char} (hu : c ∉ u) (h : u <:+: cs ++ [c]) :
    u <:+: cs := by
  obtain ⟨before, after, heq⟩ := h
  rcases List.eq_nil_or_concat after with rfl | ⟨after, d, rfl⟩
  · rcases List.eq_nil_or_concat u with rfl | ⟨u, d, rfl⟩
    · exact List.nil_infix
    · rw [List.append_nil, List.concat_eq_append, ← List.append_assoc] at heq
      have hd := (List.append_inj' heq rfl).2
      rw [List.singleton_inj] at hd
      exact absurd (by simp [hd]) hu
  · rw [List.concat_eq_append, ← List.append_assoc] at heq
    exact ⟨before, after, (List.append_inj' heq rfl).1⟩

theorem HasComment.of_append_semicolon (h : HasComment (cs ++ [';'])) : HasComment cs :=
  isInfix_of_append_singleton (by decide) h

/-! ### The lexer -/

theorem lexemes_nil : lexemes [] = .ok [] := by rw [lexemes]

/-- The lexemes of a step come before those of the rest. -/
theorem lexemes_cons {r : List Lexeme × List Char} (h : step c rest = .ok r) :
    lexemes (c :: rest) = (lexemes r.2).map (r.1 ++ ·) := by
  rw [lexemes]
  split
  next e he => rw [h] at he; cases he
  next found rest' hr => rw [h] at hr; cases hr; rfl

theorem lexemes_cons_of_error {e : Refusal} (h : step c rest = .error e) :
    lexemes (c :: rest) = .error e := by
  rw [lexemes]
  split
  next e' he => rw [h] at he; cases he; rfl
  next hok => rw [h] at hok; cases hok

/-- The lexemes of a text are those of a step and those of the rest. -/
theorem exists_of_lexemes_cons {ls : List Lexeme} (h : lexemes (c :: rest) = .ok ls) :
    ∃ r found, step c rest = .ok r ∧ lexemes r.2 = .ok found ∧ ls = r.1 ++ found := by
  cases hr : step c rest with
  | error e =>
    rw [lexemes_cons_of_error hr] at h
    cases h
  | ok r =>
    rw [lexemes_cons hr] at h
    cases hfound : lexemes r.2 with
    | error e => rw [hfound] at h; cases h
    | ok found =>
      rw [hfound] at h
      cases h
      exact ⟨r, found, rfl, hfound, rfl⟩

/-- The only step that fails meets an integer with too many digits. -/
theorem hasLongRun_of_step {e : Refusal} (h : step c rest = .error e) :
    HasLongRun (c :: rest) ∧ ∃ digits, e = .numeralTooLong digits := by
  have hstep := stepCase c rest
  rw [h] at hstep
  cases hstep with
  | @tooLong n whole tail hnumeral hlong =>
    obtain ⟨-, hwithin, hdigits⟩ := passesOver_numeral? hnumeral
    exact ⟨⟨whole, hwithin, hdigits, hlong⟩, whole.length, rfl⟩

/-- Without a long run every step succeeds. -/
theorem exists_step (h : ¬ HasLongRun (c :: rest)) : ∃ r, step c rest = .ok r := by
  cases hr : step c rest with
  | error e => exact absurd (hasLongRun_of_step hr).1 h
  | ok r => exact ⟨r, rfl⟩

/-- **What every step keeps to, the lexemes of a text keep to.** -/
theorem meets_lexemes {allowed : Refusal → Prop} {each : Lexeme → Prop} (cs : List Char)
    (h : ∀ c rest, c :: rest <:+ cs →
      Meets allowed (fun r => ∀ l ∈ r.1, each l) (step c rest)) :
    Meets allowed (fun ls => ∀ l ∈ ls, each l) (lexemes cs) := by
  match cs with
  | [] =>
    rw [lexemes_nil]
    exact meets_ok (List.forall_mem_nil _)
  | c :: rest =>
    have hfirst := h c rest List.suffix_rfl
    cases hr : step c rest with
    | error e =>
      rw [lexemes_cons_of_error hr]
      exact meets_error (hfirst.refused e hr)
    | ok r =>
      have hsuffix := step_suffix hr
      have hrest := meets_lexemes r.2 fun d tail htail =>
        h d tail (htail.trans (hsuffix.trans (List.suffix_cons c rest)))
      rw [lexemes_cons hr]
      exact hrest.map fun found hfound => List.forall_mem_append.mpr ⟨hfirst.given r hr, hfound⟩
termination_by cs.length
decreasing_by exact length_lt_of_suffix hsuffix

/-! ### Plain texts -/

theorem markLexeme_isFunction (c : Char) : (markLexeme c).isFunction = false := by
  rw [markLexeme]
  split <;> rfl

/-- **The lexemes of a plain text** without comments: no function, and every mark. -/
theorem lexemes_plain (cs : List Char) {ls : List Lexeme} (hplain : ∀ d ∈ cs, isPlain d = true)
    (hcomment : ¬ HasComment cs) (h : lexemes cs = .ok ls) :
    (∀ l ∈ ls, l.isFunction = false) ∧ ∀ c ∈ cs, isMark c = true → markLexeme c ∈ ls := by
  match cs with
  | [] =>
    rw [lexemes_nil] at h
    cases h
    simp
  | c :: rest =>
    obtain ⟨r, found, hr, hfound, rfl⟩ := exists_of_lexemes_cons h
    have hsuffix := step_suffix hr
    obtain ⟨hpass, l, hl, hmark, hatom⟩ :=
      step_plain hplain (fun hstart => hcomment hstart.isInfix) hr
    have hsub := hsuffix.trans (List.suffix_cons c rest)
    obtain ⟨hfun, hmarks⟩ := lexemes_plain r.2 (fun d hd => hplain d (hsub.subset hd))
      (fun hin => hcomment (hin.trans hsub.isInfix)) hfound
    rw [hl]
    refine ⟨List.forall_mem_cons.mpr ⟨?_, hfun⟩, fun d hd hdmark => ?_⟩
    · by_cases hc : isMark c = true
      · rw [hmark hc, markLexeme_isFunction]
      · rw [Bool.not_eq_true] at hc
        obtain ⟨a, rfl, -⟩ := hatom hc
        rfl
    · rcases List.mem_cons.mp hd with rfl | hd
      · rw [← hmark hdmark]
        exact List.mem_cons_self
      · exact List.mem_cons_of_mem _ (hmarks d (hpass.mem hdmark hd) hdmark)
termination_by cs.length
decreasing_by exact length_lt_of_suffix hsuffix

/-- Nothing in a text begins a string, an address, a function, an escape or a comment, is a mark or
an equals sign, or is too long for an integer. -/
structure IsCalm (cs : List Char) : Prop where
  plain : ∀ c ∈ cs, isPlain c = true
  unmarked : ∀ c ∈ cs, isMark c = false ∧ c ≠ '='
  uncommented : ¬ HasComment cs
  short : ¬ HasLongRun cs

theorem IsCalm.mono (h : IsCalm cs) (hsub : rest <:+: cs) : IsCalm rest :=
  ⟨fun c hc => h.plain c (hsub.subset hc), fun c hc => h.unmarked c (hsub.subset hc),
    fun hin => h.uncommented (hin.trans hsub), fun hlong => h.short (hlong.mono hsub)⟩

/-- **The lexemes of a calm text and a semicolon** are calm ones and the semicolon. -/
theorem exists_lexemes_calm (cs : List Char) (h : IsCalm cs) :
    ∃ ls, lexemes (cs ++ [';']) = .ok (ls ++ [.atom (.literal ";")]) ∧ ∀ l ∈ ls, l.IsCalm := by
  match cs with
  | [] =>
    have hstep := step_of_isMark (by decide : isMark ';' = true) []
    refine ⟨[], ?_, by simp⟩
    rw [List.nil_append, lexemes_cons hstep, lexemes_nil]
    rfl
  | c :: rest =>
    have hplain : ∀ d ∈ c :: (rest ++ [';']), isPlain d = true := by
      intro d hd
      rw [← List.cons_append, List.mem_append, List.mem_singleton] at hd
      rcases hd with hd | rfl
      · exact h.plain d hd
      · decide
    have hcomment : ¬ ['/', '*'] <+: c :: (rest ++ [';']) := fun hstart =>
      h.uncommented (HasComment.of_append_semicolon hstart.isInfix)
    have hshort : ¬ HasLongRun (c :: (rest ++ [';'])) := by
      rintro ⟨run, hrun, hdigits, hlong⟩
      have hsemicolon : ';' ∉ run := fun hmem => by cases hdigits _ hmem
      exact h.short ⟨run, isInfix_of_append_singleton hsemicolon hrun, hdigits, hlong⟩
    obtain ⟨r, hr⟩ := exists_step hshort
    obtain ⟨⟨gone, hgone, hmarks⟩, l, hl, -, hatom⟩ := step_plain hplain hcomment hr
    obtain ⟨a, rfl, ha⟩ := hatom (h.unmarked c List.mem_cons_self).1
    -- The semicolon is not passed over, so it ends the rest as well.
    rcases List.eq_nil_or_concat r.2 with hnil | ⟨rest', d, hconcat⟩
    · have hmem : ';' ∈ gone := by
        rw [hnil, List.append_nil] at hgone
        rw [← hgone]
        simp
      cases hmarks _ hmem
    · rw [List.concat_eq_append] at hconcat
      rw [hconcat, ← List.append_assoc] at hgone
      obtain ⟨hrest, hd⟩ := List.append_inj' hgone rfl
      cases hd
      have hsub : rest' <:+ rest := ⟨gone, hrest.symm⟩
      obtain ⟨ls, hls, hcalm⟩ :=
        exists_lexemes_calm rest' (h.mono (hsub.trans (List.suffix_cons c rest)).isInfix)
      refine ⟨.atom a :: ls, ?_, List.forall_mem_cons.mpr
        ⟨⟨a, rfl, ha (h.unmarked c List.mem_cons_self).2⟩, hcalm⟩⟩
      rw [List.cons_append, lexemes_cons hr, hconcat, hls, hl]
      rfl
termination_by cs.length
decreasing_by exact length_lt_of_suffix hsub

end

end ThemeSheet.Css
