import ThemeSheet.Proofs.Css.Lexemes
import ThemeSheet.Proofs.Text.Trimming

/-!
# Line breaks made alike, and left out

Two texts are made of a value before it is judged: its line breaks and tabs are left out and the
blanks around it are taken off, and the line breaks of what the lexer is given are made alike. What
is neither a blank nor a line break comes through both of them where it stood: a part of the text
without such characters is part of the other text, and the other way round.

## Main results

* `isInfix_stripped`: a part without blanks stays when a text is stripped;
* `stripped_stripped`, `stripped_of_filter_eq`: stripping twice, and stripping what differs from a
  stripped text by line breaks;
* `IsCalm.normalize`, `mem_normalize`: calm texts stay calm, and nothing else is lost.
-/

namespace ThemeSheet.Css

open Text (isAsciiDigit isBlank)

variable {c : Char} {u cs : List Char}

/-! ### Stripping -/

/-- Line breaks and tabs are blanks. -/
theorem kept_of_not_isBlank (h : isBlank c = false) :
    decide (c ≠ '\n' ∧ c ≠ '\r' ∧ c ≠ '\t') = true := by
  refine decide_eq_true ⟨?_, ?_, ?_⟩ <;>
  · rintro rfl
    cases h

/-- **A part without blanks stays** when a text is stripped. -/
theorem isInfix_stripped (hu : ∀ c ∈ u, isBlank c = false) (h : u <:+: cs) :
    u <:+: stripped cs := by
  have hfilter : u.filter (fun c => c ≠ '\n' ∧ c ≠ '\r' ∧ c ≠ '\t') = u :=
    List.filter_eq_self.mpr fun c hc => kept_of_not_isBlank (hu c hc)
  have hkept := h.filter fun c => decide (c ≠ '\n' ∧ c ≠ '\r' ∧ c ≠ '\t')
  rw [hfilter] at hkept
  exact Text.isInfix_trimBy hu hkept

theorem HasComment.stripped (h : HasComment cs) : HasComment (stripped cs) :=
  isInfix_stripped (List.forall_mem_cons.mpr ⟨rfl, List.forall_mem_singleton.mpr rfl⟩) h

theorem mem_stripped (h : isBlank c = false) (hmem : c ∈ cs) : c ∈ stripped cs := by
  obtain ⟨before, after, rfl⟩ := List.append_of_mem hmem
  have hwithin : [c] <:+: before ++ c :: after := ⟨before, after, by simp⟩
  exact (isInfix_stripped (by simpa using h) hwithin).subset List.mem_cons_self

/-- What is left has no line breaks and no tabs. -/
theorem kept_of_mem_stripped (h : c ∈ stripped cs) : c ≠ '\n' ∧ c ≠ '\r' ∧ c ≠ '\t' := by
  have hmem := (Text.trimBy_isInfix isBlank _).subset h
  exact of_decide_eq_true (List.mem_filter.mp hmem).2

/-- What has been stripped is left as it is, and so is what becomes of it by putting in line
breaks. -/
theorem stripped_of_filter_eq {n : List Char} (h : stripped n = n)
    (hcs : cs.filter (fun c => c ≠ '\n' ∧ c ≠ '\r' ∧ c ≠ '\t') = n) : stripped cs = n := by
  have hself : n.filter (fun c => c ≠ '\n' ∧ c ≠ '\r' ∧ c ≠ '\t') = n := by
    refine List.filter_eq_self.mpr fun c hc => decide_eq_true ?_
    rw [← h] at hc
    exact kept_of_mem_stripped hc
  rw [stripped, hself] at h
  rw [stripped, hcs, h]

theorem stripped_stripped (cs : List Char) : stripped (stripped cs) = stripped cs := by
  have hself : (stripped cs).filter (fun c => c ≠ '\n' ∧ c ≠ '\r' ∧ c ≠ '\t') = stripped cs :=
    List.filter_eq_self.mpr fun c hc => decide_eq_true (kept_of_mem_stripped hc)
  rw [stripped, hself]
  exact Text.trimBy_trimBy isBlank _

/-! ### Line breaks made alike -/

theorem normalize_append_semicolon (cs : List Char) :
    normalize (cs ++ [';']) = normalize cs ++ [';'] := by
  fun_induction normalize cs with
  | case1 => rfl
  | case2 rest ih => rw [List.cons_append, List.cons_append, normalize, ih]; rfl
  | case3 c rest hne ih =>
    rw [List.cons_append, normalize, ih]
    · rfl
    · intro rest' hc hrest
      cases rest with
      | nil => cases hrest
      | cons d rest =>
        cases hrest
        exact hne rest hc rfl

theorem mem_of_mem_normalize (h : c ∈ normalize cs) : c ∈ cs ∨ c = '\n' ∨ c = '\uFFFD' := by
  fun_induction normalize cs with
  | case1 => cases h
  | case2 rest ih =>
    rcases List.mem_cons.mp h with rfl | h
    · exact .inr (.inl rfl)
    · exact (ih h).imp_left fun hmem => List.mem_cons_of_mem _ (List.mem_cons_of_mem _ hmem)
  | case3 d rest hne ih =>
    rcases List.mem_cons.mp h with heq | h
    · split at heq
      · exact .inr (.inl heq)
      · split at heq
        · exact .inr (.inr heq)
        · exact .inl (heq ▸ List.mem_cons_self)
    · exact (ih h).imp_left (List.mem_cons_of_mem _)

/-- What is no line break and can be written stays. -/
theorem mem_normalize (h : c ∈ cs) (hc : c ≠ '\r' ∧ c ≠ '\x0c' ∧ c ≠ '\x00') :
    c ∈ normalize cs := by
  fun_induction normalize cs with
  | case1 => cases h
  | case2 rest ih =>
    rcases List.mem_cons.mp h with rfl | h
    · exact absurd rfl hc.1
    · rcases List.mem_cons.mp h with rfl | h
      · exact List.mem_cons_self
      · exact List.mem_cons_of_mem _ (ih h)
  | case3 d rest hne ih =>
    rcases List.mem_cons.mp h with rfl | h
    · rw [if_neg (by simp [hc]), if_neg hc.2.2]
      exact List.mem_cons_self
    · exact List.mem_cons_of_mem _ (ih h)

/-- A part that has no line break is part of the text as it was. -/
theorem isPrefix_of_normalize (hu : ∀ c ∈ u, c ≠ '\n' ∧ c ≠ '\uFFFD') (h : u <+: normalize cs) :
    u <+: cs := by
  fun_induction normalize cs generalizing u with
  | case1 => exact h
  | case2 rest ih =>
    cases u with
    | nil => exact List.nil_prefix
    | cons d u =>
      obtain ⟨rfl, -⟩ := List.cons_prefix_cons.mp h
      exact absurd rfl (hu _ List.mem_cons_self).1
  | case3 d rest hne ih =>
    cases u with
    | nil => exact List.nil_prefix
    | cons e u =>
      obtain ⟨he, hstart⟩ := List.cons_prefix_cons.mp h
      obtain ⟨hfirst, htail⟩ := List.forall_mem_cons.mp hu
      refine List.cons_prefix_cons.mpr ⟨?_, ih htail hstart⟩
      split at he
      · exact absurd he hfirst.1
      · split at he
        · exact absurd he hfirst.2
        · exact he

theorem isInfix_of_normalize (hu : ∀ c ∈ u, c ≠ '\n' ∧ c ≠ '\uFFFD') (h : u <:+: normalize cs) :
    u <:+: cs := by
  have hbegin : u <+: normalize cs → u <+: cs := isPrefix_of_normalize hu
  fun_induction normalize cs with
  | case1 => exact h
  | case2 rest ih =>
    rcases List.infix_cons_iff.mp h with hstart | hwithin
    · exact (hbegin hstart).isInfix
    · have := ih hwithin (isPrefix_of_normalize hu)
      exact this.trans ⟨['\r', '\n'], [], by simp⟩
  | case3 d rest hne ih =>
    rcases List.infix_cons_iff.mp h with hstart | hwithin
    · exact (hbegin hstart).isInfix
    · exact (ih hwithin (isPrefix_of_normalize hu)).trans (List.suffix_cons d rest).isInfix

theorem HasComment.of_normalize (h : HasComment (normalize cs)) : HasComment cs :=
  isInfix_of_normalize (by simp) h

/-- **Calm texts stay calm.** -/
theorem IsCalm.normalize (h : IsCalm cs) : IsCalm (normalize cs) := by
  refine ⟨fun c hc => ?_, fun c hc => ?_, fun hcomment => ?_, ?_⟩
  · rcases mem_of_mem_normalize hc with hc | rfl | rfl
    · exact h.plain c hc
    · decide
    · decide
  · rcases mem_of_mem_normalize hc with hc | rfl | rfl
    · exact h.unmarked c hc
    · decide
    · decide
  · exact h.uncommented hcomment.of_normalize
  · rintro ⟨run, hrun, hdigits, hlong⟩
    refine h.short ⟨run, isInfix_of_normalize (fun c hc => ?_) hrun, hdigits, hlong⟩
    constructor <;>
    · rintro rfl
      cases hdigits _ hc

/-- **A calm text is safe** in a value of any property. -/
theorem isSafeTerminated_of_isCalm (h : IsCalm cs) (property : String) :
    isSafeTerminated property cs = .ok true := by
  obtain ⟨ls, hls, hcalm⟩ := exists_lexemes_calm (Css.normalize cs) h.normalize
  rw [← normalize_append_semicolon] at hls
  exact isSafeTerminated_of_calm hls hcalm

end ThemeSheet.Css
