import ThemeSheet.Text.Markup

/-!
# Characters in markup

A character that means something in markup is written as one of five entities, and every other one as
it is. An entity is longer than the character, ends in a semicolon and has no quotes in it. So a text
that is written in markup has no quotes, and it is the same text only if all its characters mean
nothing there.

## Main definitions

* `Text.entities`, the entities of the five characters;
* `Text.IsEscaped`, of texts that may stand in an attribute.

## Main results

* `Text.markupChar_cases`: how a character is written;
* `Text.flatMap_markupChar_eq_self_iff`: which texts are written as they are;
* `Text.isEscaped_escapeMarkup`, `Text.not_mem_escapeMarkup`: what stands in an attribute.
-/

namespace ThemeSheet.Text

/-- The entities of the characters that mean something in markup. -/
def entities : List (List Char) :=
  ["&amp;".toList, "&lt;".toList, "&gt;".toList, "&quot;".toList, "&#x27;".toList]

/-- **How a character is written in markup**: as an entity if it means something there, and otherwise
as it is. -/
theorem markupChar_cases (c : Char) :
    c ∈ ['&', '<', '>', '"', '\x27'] ∧ markupChar c ∈ entities ∨
      c ∉ ['&', '<', '>', '"', '\x27'] ∧ markupChar c = [c] := by
  by_cases h : c ∈ ['&', '<', '>', '"', '\x27']
  · have hall : ['&', '<', '>', '"', '\x27'].all (fun c => decide (markupChar c ∈ entities)) =
        true := by decide +kernel
    exact .inl ⟨h, of_decide_eq_true (List.all_eq_true.mp hall c h)⟩
  · refine .inr ⟨h, ?_⟩
    simp only [List.mem_cons, List.not_mem_nil, or_false, not_or] at h
    obtain ⟨hamp, hlt, hgt, hquote, hapos⟩ := h
    rw [markupChar, if_neg hamp, if_neg hlt, if_neg hgt, if_neg hquote, if_neg hapos]

/-! ### Lengths -/

theorem one_lt_length_of_mem_entities : ∀ e ∈ entities, 1 < e.length := by decide +kernel

theorem length_le_flatMap_markupChar (cs : List Char) :
    cs.length ≤ (cs.flatMap markupChar).length := by
  induction cs with
  | nil => exact Nat.le_refl 0
  | cons c cs ih =>
    have hc : 1 ≤ (markupChar c).length := by
      rcases markupChar_cases c with ⟨-, hentity⟩ | ⟨-, heq⟩
      · exact Nat.le_of_lt (one_lt_length_of_mem_entities _ hentity)
      · exact Nat.le_of_eq (by rw [heq, List.length_singleton])
    rw [List.flatMap_cons, List.length_append, List.length_cons]
    omega

/-- Only characters that mean nothing in markup are written as they are. -/
theorem flatMap_markupChar_eq_self_iff {cs : List Char} :
    cs.flatMap markupChar = cs ↔ ∀ c ∈ cs, c ∉ ['&', '<', '>', '"', '\x27'] := by
  induction cs with
  | nil => simp
  | cons c cs ih =>
    rw [List.forall_mem_cons, ← ih, List.flatMap_cons]
    rcases markupChar_cases c with ⟨hc, hentity⟩ | ⟨hc, heq⟩
    · -- Such a character gets longer, and nothing gets shorter after it.
      refine iff_of_false (fun heq => ?_) fun h => h.1 hc
      have hlength := congrArg List.length heq
      have hlong := one_lt_length_of_mem_entities _ hentity
      have hrest := length_le_flatMap_markupChar cs
      rw [List.length_append, List.length_cons] at hlength
      omega
    · rw [heq, List.singleton_append, List.cons_inj_right, and_iff_right hc]

/-! ### What stands in an attribute -/

/-- A text may stand in an attribute: there are no brackets and no quotes in it, and every ampersand
of it begins an entity. -/
structure IsEscaped (cs : List Char) : Prop where
  plain : ∀ c ∈ cs, c ∉ ['<', '>', '"', '\x27']
  entity : ∀ front back, cs = front ++ '&' :: back → ∃ e ∈ entities, e <+: '&' :: back

theorem isEscaped_nil : IsEscaped [] where
  plain := List.forall_mem_nil _
  entity front back h := by simp at h

/-- An ampersand of a text stands behind a beginning that has none. -/
theorem exists_of_append_eq {start rest front back : List Char} (hstart : '&' ∉ start)
    (h : start ++ rest = front ++ '&' :: back) :
    ∃ between, front = start ++ between ∧ rest = between ++ '&' :: back := by
  rcases List.append_eq_append_iff.mp h with ⟨between, hfront, hrest⟩ | ⟨more, hmore, hback⟩
  · exact ⟨between, hfront, hrest⟩
  · cases more with
    | nil => exact ⟨[], by simpa using hmore.symm, by simpa using hback.symm⟩
    | cons c more =>
      obtain ⟨rfl, -⟩ := List.cons.inj hback
      exact absurd (hmore ▸ List.mem_append_right front List.mem_cons_self) hstart

/-- Plain characters may stand in front of what may stand in an attribute. -/
theorem IsEscaped.cons {c : Char} {cs : List Char} (hc : c ∉ ['&', '<', '>', '"', '\x27'])
    (h : IsEscaped cs) : IsEscaped (c :: cs) where
  plain := List.forall_mem_cons.mpr ⟨fun hmem => hc (List.mem_cons_of_mem _ hmem), h.plain⟩
  entity front back heq := by
    have hamp : '&' ∉ [c] := fun hmem => hc (List.mem_singleton.mp hmem ▸ List.mem_cons_self)
    rw [← List.singleton_append] at heq
    obtain ⟨between, -, hrest⟩ := exists_of_append_eq hamp heq
    exact h.entity between back hrest

/-- So may entities: an entity has no ampersand behind its first character. -/
theorem IsEscaped.append_entity {e cs : List Char} (he : e ∈ entities) (h : IsEscaped cs) :
    IsEscaped (e ++ cs) where
  plain := by
    have hall : ∀ e ∈ entities, e.all (fun c => decide (c ∉ ['<', '>', '"', '\x27'])) = true := by
      decide +kernel
    exact List.forall_mem_append.mpr
      ⟨fun c hc => of_decide_eq_true (List.all_eq_true.mp (hall e he) c hc), h.plain⟩
  entity front back heq := by
    have hall : ∀ e ∈ entities, e = '&' :: e.tail ∧ '&' ∉ e.tail := by decide +kernel
    obtain ⟨hcons, hamp⟩ := hall e he
    cases front with
    | nil => exact ⟨e, he, cs, heq⟩
    | cons c front =>
      rw [hcons, List.cons_append, List.cons_append, List.cons.injEq] at heq
      obtain ⟨between, -, hrest⟩ := exists_of_append_eq hamp heq.2
      exact h.entity between back hrest

/-- **A text that is written in markup may stand in an attribute.** -/
theorem isEscaped_escapeMarkup (s : String) : IsEscaped (escapeMarkup s).toList := by
  rw [escapeMarkup, String.toList_ofList]
  generalize s.toList = cs
  induction cs with
  | nil => exact isEscaped_nil
  | cons c cs ih =>
    rw [List.flatMap_cons]
    rcases markupChar_cases c with ⟨-, hentity⟩ | ⟨hplain, heq⟩
    · exact ih.append_entity hentity
    · rw [heq]
      exact ih.cons hplain

/-- **A text that is written in markup has no quotes in it.** -/
theorem not_mem_escapeMarkup {c : Char} (hc : c = '"' ∨ c = '\x27') (s : String) :
    c ∉ (escapeMarkup s).toList := fun hmem =>
  (isEscaped_escapeMarkup s).plain c hmem (by rcases hc with rfl | rfl <;> decide)

end ThemeSheet.Text
