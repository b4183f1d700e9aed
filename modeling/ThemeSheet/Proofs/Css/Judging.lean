import ThemeSheet.Proofs.Css.Runs
import ThemeSheet.Proofs.Text.Markup
import ThemeSheet.Proofs.Text.Occurrences
import ThemeSheet.Style.Property

/-!
# Texts that can be judged

Before a value is read to be judged, its line breaks and tabs are left out, and a text with a
semicolon or a backslash is not read at all. So judging is refused only for a long run of digits in
what is left of a text with neither. What is spelled from such texts, by quoting them, writing them
in markup, or putting them into lists with commas, is such a text again.

The ways in which texts are put together are those of a `TextClass`, so that what holds of all that
is spelled in compiling can be said of any property of texts that is kept by them.

## Main definitions

* `Css.IsJudged`, of texts that are judged but for allowed reasons;
* `TextClass`, a class of texts that is closed under spelling.

## Main results

* `Css.IsJudged.failsOnly_isSafeText`;
* `TextClass.judged`: the texts that are judged but for allowed reasons are such a class.
-/

namespace ThemeSheet

namespace Css

open Result (FailsOnly failsOnly_ok)
open Text (isAsciiDigit)

/-- What is left of a text without line breaks and tabs. -/
def unbroken (cs : List Char) : List Char := cs.filter fun c => c ≠ '\n' ∧ c ≠ '\r' ∧ c ≠ '\t'

/-- Whether a character is neither a digit nor left out, so that no run goes beyond it. -/
def separates (c : Char) : Bool :=
  !isAsciiDigit c && decide (c ≠ '\n' ∧ c ≠ '\r' ∧ c ≠ '\t')

/-- A text is not read at all, or has a long run of digits only if that is an allowed reason. -/
def IsJudged (allowed : Refusal → Prop) (cs : List Char) : Prop :=
  ('\\' ∈ cs ∨ ';' ∈ cs) ∨ (HasLongRun (unbroken cs) → ∀ digits, allowed (.numeralTooLong digits))

section

variable {c : Char} {a b cs : List Char} {allowed : Refusal → Prop}

theorem unbroken_append (a b : List Char) : unbroken (a ++ b) = unbroken a ++ unbroken b :=
  List.filter_append ..

theorem unbroken_cons_of_separates (hc : separates c = true) (cs : List Char) :
    unbroken (c :: cs) = c :: unbroken cs := by
  rw [separates, Bool.and_eq_true] at hc
  exact List.filter_cons_of_pos hc.2

theorem isAsciiDigit_of_separates (hc : separates c = true) : isAsciiDigit c = false := by
  rw [separates, Bool.and_eq_true] at hc
  simpa using hc.1

/-- Nothing is left out between the digits of a run that is read. -/
theorem HasLongRun.unbroken_of_stripped (h : HasLongRun (stripped cs ++ [';'])) :
    HasLongRun (unbroken cs) := by
  have hstripped : HasRun Decimal.integerDigitLimit (stripped cs) :=
    (HasRun.of_append_cons (by decide) h).resolve_right
      (not_hasRun_of_length_le (Nat.zero_le _))
  exact hstripped.mono (Text.trimBy_isInfix _ _) (Nat.le_refl _)

/-- **A text is judged but for allowed reasons.** -/
theorem IsJudged.failsOnly_isSafeText (h : IsJudged allowed cs) (property : String) :
    FailsOnly allowed (isSafeText property cs) := by
  unfold isSafeText
  split
  · exact failsOnly_ok false
  next hrefused =>
    rcases h with hmarked | h
    · rw [Bool.not_eq_true] at hrefused
      simp only [refusedOutright, Bool.or_eq_false_iff] at hrefused
      obtain ⟨⟨⟨-, hsemicolon⟩, hescape⟩, -⟩ := hrefused
      rcases hmarked with hmem | hmem
      · simp [mem_stripped (by decide) hmem] at hescape
      · simp [mem_stripped (by decide) hmem] at hsemicolon
    · exact (failsOnly_tokens fun hlong => h hlong.unbroken_of_stripped).bind
        fun _ => failsOnly_ok _

/-! ### Texts put together -/

theorem isJudged_of_length_le (h : cs.length ≤ Decimal.integerDigitLimit) :
    IsJudged allowed cs := by
  refine .inr fun hlong => absurd hlong (not_hasRun_of_length_le ?_)
  exact Nat.le_trans (List.length_filter_le _ cs) h

theorem isJudged_of_digitless (h : cs.any isAsciiDigit = false) : IsJudged allowed cs := by
  refine .inr fun ⟨run, hrun, hdigits, hlong⟩ => False.elim ?_
  obtain ⟨d, hd⟩ := List.exists_mem_of_length_pos (Nat.zero_lt_of_lt hlong)
  exact List.any_eq_false.mp h d (List.mem_filter.mp (hrun.subset hd)).1 (hdigits d hd)

theorem IsJudged.append_cons (hc : separates c = true) (ha : IsJudged allowed a)
    (hb : IsJudged allowed b) : IsJudged allowed (a ++ c :: b) := by
  rcases ha with ha | ha
  · left
    exact ha.imp (List.mem_append_left _) (List.mem_append_left _)
  rcases hb with hb | hb
  · left
    refine hb.imp ?_ ?_ <;>
    · intro hmem
      exact List.mem_append_right _ (List.mem_cons_of_mem _ hmem)
  right
  intro hlong
  rw [unbroken_append, unbroken_cons_of_separates hc] at hlong
  exact (HasRun.of_append_cons (isAsciiDigit_of_separates hc) hlong).elim ha hb

/-- A text in which something is escaped has a backslash or a semicolon. -/
theorem flatMap_cases {f : Char → List Char} (hf : ∀ c, f c = [c] ∨ '\\' ∈ f c ∨ ';' ∈ f c)
    (cs : List Char) : cs.flatMap f = cs ∨ '\\' ∈ cs.flatMap f ∨ ';' ∈ cs.flatMap f := by
  induction cs with
  | nil => exact .inl rfl
  | cons c cs ih =>
    rw [List.flatMap_cons]
    rcases hf c with hc | hmarked
    · rw [hc]
      refine ih.imp (fun heq => by rw [heq]; rfl) ?_
      exact Or.imp (List.mem_append_right _) (List.mem_append_right _)
    · exact .inr (hmarked.imp (List.mem_append_left _) (List.mem_append_left _))

/-- Escapes and entities keep a text from being read. -/
theorem IsJudged.flatMap {f : Char → List Char} (hf : ∀ c, f c = [c] ∨ '\\' ∈ f c ∨ ';' ∈ f c)
    (h : IsJudged allowed cs) : IsJudged allowed (cs.flatMap f) := by
  rcases flatMap_cases hf cs with heq | hmarked
  · rwa [heq]
  · exact .inl hmarked

theorem unbroken_replaceAll_bar (cs : List Char) :
    unbroken (Text.replaceAll ['|'] ['-', '-'] cs) =
      Text.replaceAll ['|'] ['-', '-'] (unbroken cs) := by
  induction cs with
  | nil => rfl
  | cons c rest ih =>
    rw [replaceAll_bar_cons]
    split
    next hc =>
      subst hc
      rw [unbroken_cons_of_separates (by decide), unbroken_cons_of_separates (by decide),
        unbroken_cons_of_separates (by decide), ih, replaceAll_bar_cons, if_pos rfl]
    next hc =>
      unfold unbroken at ih ⊢
      rw [List.filter_cons, List.filter_cons]
      split
      · rw [replaceAll_bar_cons, if_neg hc, ih]
      · exact ih

theorem mem_replaceAll_bar (hc : c ≠ '|') (h : c ∈ cs) :
    c ∈ Text.replaceAll ['|'] ['-', '-'] cs := by
  induction cs with
  | nil => cases h
  | cons d rest ih =>
    rw [replaceAll_bar_cons]
    rcases List.mem_cons.mp h with rfl | h
    · simp [hc]
    · split <;> simp [ih h]

theorem IsJudged.replaceAll_bar (h : IsJudged allowed cs) :
    IsJudged allowed (Text.replaceAll ['|'] ['-', '-'] cs) := by
  refine h.imp (Or.imp (mem_replaceAll_bar (by decide)) (mem_replaceAll_bar (by decide))) ?_
  intro h hlong
  rw [unbroken_replaceAll_bar] at hlong
  exact h (HasRun.of_replaceAll_bar hlong)

end

end Css

/-! ### Classes of texts -/

/-- A class of texts to which what is spelled from its texts belongs, too. -/
structure TextClass where
  mem : List Char → Prop
  digitless : ∀ cs : List Char, cs.any Text.isAsciiDigit = false → mem cs
  /-- Texts that are not longer than integers may be. -/
  short : ∀ cs : List Char, cs.length ≤ Decimal.integerDigitLimit → mem cs
  append_cons : ∀ c a b, Css.separates c = true → mem a → mem b → mem (a ++ c :: b)
  flatMap : ∀ (f : Char → List Char) cs, (∀ c, f c = [c] ∨ '\\' ∈ f c ∨ ';' ∈ f c) → mem cs →
    mem (cs.flatMap f)
  /-- A custom property that is referred to, after the mark of a reference. -/
  reference : ∀ name, mem ("var:".toList ++ name) →
    mem (Text.replaceAll ['|'] ['-', '-'] name)

namespace TextClass

/-- All texts. -/
def any : TextClass where
  mem _ := True
  digitless _ _ := True.intro
  short _ _ := True.intro
  append_cons _ _ _ _ _ _ := True.intro
  flatMap _ _ _ _ := True.intro
  reference _ _ := True.intro

/-- The texts that are judged but for allowed reasons. -/
def judged (allowed : Refusal → Prop) : TextClass where
  mem := Css.IsJudged allowed
  digitless _ := Css.isJudged_of_digitless
  short _ := Css.isJudged_of_length_le
  append_cons _ _ _ := Css.IsJudged.append_cons
  flatMap _ _ := Css.IsJudged.flatMap
  reference name h := by
    refine Css.IsJudged.replaceAll_bar (h.imp (fun hmarked => ?_) fun hlong hname => hlong ?_)
    · simpa using hmarked
    · rw [Css.unbroken_append]
      exact hname.mono (List.suffix_append _ _).isInfix

variable {t : TextClass} {c : Char} {a cs : List Char}

theorem mem_nil : t.mem [] := t.short [] (Nat.zero_le _)

theorem mem_cons (hc : Css.separates c = true) (h : t.mem cs) : t.mem (c :: cs) :=
  t.append_cons c [] cs hc mem_nil h

/-- What follows characters that all keep apart. -/
theorem mem_separators_append (ha : a.all Css.separates = true) (h : t.mem cs) :
    t.mem (a ++ cs) := by
  induction a with
  | nil => exact h
  | cons c a ih =>
    rw [List.all_cons, Bool.and_eq_true] at ha
    exact mem_cons ha.1 (ih ha.2)

/-- What comes before characters that all keep apart. -/
theorem mem_append_separators (ha : a.all Css.separates = true) (h : t.mem cs) :
    t.mem (cs ++ a) := by
  cases a with
  | nil => rwa [List.append_nil]
  | cons c a =>
    rw [List.all_cons, Bool.and_eq_true] at ha
    have hrest := mem_separators_append ha.2 (mem_nil (t := t))
    rw [List.append_nil] at hrest
    exact t.append_cons c cs a ha.1 h hrest

/-- The items of a list with commas between them. -/
theorem mem_intercalate {parts : List String} (h : ∀ part ∈ parts, t.mem part.toList) :
    t.mem (", ".intercalate parts).toList := by
  induction parts with
  | nil => exact mem_nil
  | cons part parts ih =>
    obtain ⟨hpart, hparts⟩ := List.forall_mem_cons.mp h
    cases parts with
    | nil => simpa using hpart
    | cons next parts =>
      have htail : t.mem (' ' :: (", ".intercalate (next :: parts)).toList) :=
        mem_cons (by decide) (ih hparts)
      have happend := t.append_cons ',' _ _ (by decide) hpart htail
      rw [String.intercalate_cons_cons]
      simpa using happend

theorem quotedChar_cases (quote c : Char) :
    quotedChar quote c = [c] ∨ '\\' ∈ quotedChar quote c := by
  unfold quotedChar
  repeat' split
  all_goals simp

theorem mem_quoted {s : String} (h : t.mem s.toList) : t.mem (quoted s).toList := by
  have hquotes : ∀ quote, Css.separates quote = true →
      t.mem (quote :: s.toList.flatMap (quotedChar quote) ++ [quote]) := fun quote hquote =>
    mem_append_separators (by simp [hquote]) (mem_cons hquote (t.flatMap _ _
      (fun c => (quotedChar_cases quote c).imp_right .inl) h))
  unfold quoted
  rw [String.toList_ofList]
  split
  · exact hquotes '"' (by decide)
  · exact hquotes '\x27' (by decide)

theorem mem_escapeMarkup {s : String} (h : t.mem s.toList) :
    t.mem (Text.escapeMarkup s).toList := by
  have hends : ∀ e ∈ Text.entities, ';' ∈ e := by decide +kernel
  unfold Text.escapeMarkup
  rw [String.toList_ofList]
  refine t.flatMap _ _ (fun c => ?_) h
  rcases Text.markupChar_cases c with ⟨-, hentity⟩ | ⟨-, heq⟩
  · exact .inr (.inr (hends _ hentity))
  · exact .inl heq

theorem mem_expandReference {s : String} (h : t.mem s.toList) :
    t.mem (expandReference s).toList := by
  unfold expandReference
  split
  next name hname =>
    rw [Text.append_of_afterStart? hname] at h
    have hclosed := mem_append_separators (a := [')']) (by decide) (t.reference name h)
    have hopened := mem_separators_append (a := "var(--wp--".toList) (by decide) hclosed
    simpa using hopened
  next => exact h

end TextClass

end ThemeSheet
