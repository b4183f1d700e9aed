import ThemeSheet.Text.Chars

/-!
# Parts that are joined

A joined text has the characters of its parts and those of what stands between them, part by part.
Cut at a separator it falls into its parts again, if none of them has the separator in it; and a
text that is cut has no separator left in any part.

## Main results

* `Text.mem_joinWith`, `Text.map_joinWith`, `Text.filter_joinWith`: the characters of a joined text;
* `Text.toList_intercalate`: strings that are joined;
* `Text.splitOn_joinWith`, `Text.not_mem_of_mem_splitOn`: splitting undoes joining;
* `Text.joinWith_append`: a longer text between the parts.
-/

namespace ThemeSheet.Text

variable {c : Char} {sep : List Char} {parts : List (List Char)}

theorem mem_joinWith (h : c ∈ joinWith sep parts) : c ∈ sep ∨ ∃ part ∈ parts, c ∈ part := by
  induction parts with
  | nil => cases h
  | cons part parts ih =>
    by_cases hnil : parts = []
    · subst hnil
      exact .inr ⟨part, List.mem_cons_self, h⟩
    · rw [joinWith_cons_of_ne_nil hnil, List.append_assoc, List.mem_append, List.mem_append] at h
      rcases h with h | h | h
      · exact .inr ⟨part, List.mem_cons_self, h⟩
      · exact .inl h
      · refine (ih h).imp_right ?_
        rintro ⟨other, hother, hc⟩
        exact ⟨other, List.mem_cons_of_mem part hother, hc⟩

theorem map_joinWith (f : Char → Char) (sep : List Char) (parts : List (List Char)) :
    (joinWith sep parts).map f = joinWith (sep.map f) (parts.map (·.map f)) := by
  induction parts with
  | nil => rfl
  | cons part parts ih =>
    by_cases hnil : parts = []
    · subst hnil
      rfl
    · rw [joinWith_cons_of_ne_nil hnil, List.map_append, List.map_append, ih, List.map_cons,
        joinWith_cons_of_ne_nil (by simpa using hnil)]

/-- What stands between parts does not count if none of it passes. -/
theorem filter_joinWith {p : Char → Bool} (hsep : sep.filter p = []) (parts : List (List Char)) :
    (joinWith sep parts).filter p = parts.flatten.filter p := by
  induction parts with
  | nil => rfl
  | cons part parts ih =>
    by_cases hnil : parts = []
    · subst hnil
      simp [joinWith]
    · rw [joinWith_cons_of_ne_nil hnil]
      simp [hsep, ih]

theorem joinWith_eq_intercalate (sep : List Char) (parts : List (List Char)) :
    joinWith sep parts = sep.intercalate parts := by
  induction parts with
  | nil => rfl
  | cons part parts ih =>
    by_cases hnil : parts = []
    · subst hnil
      simp [joinWith]
    · rw [joinWith_cons_of_ne_nil hnil, List.intercalate_cons_of_ne_nil hnil, ih]

/-- **The characters of joined strings.** -/
theorem toList_intercalate (sep : String) (parts : List String) :
    (sep.intercalate parts).toList = joinWith sep.toList (parts.map String.toList) := by
  rw [String.toList_intercalate, joinWith_eq_intercalate]

/-! ### Splitting -/

theorem splitOn_eq (c : Char) (cs : List Char) : splitOn c cs = cs.splitOn c := by
  rw [List.splitOn_eq_splitOnP]
  induction cs with
  | nil => rfl
  | cons d cs ih =>
    rw [List.splitOnP_cons_eq_if_modifyHead, splitOn, ← ih]
    by_cases h : d = c
    · rw [if_pos h, if_pos (by simpa using h)]
    · rw [if_neg h, if_neg (by simpa using h)]
      cases hs : splitOn c cs with
      | nil => exact absurd hs (splitOn_ne_nil c cs)
      | cons part parts => rfl

/-- **Splitting undoes joining**, where no part has the separator in it. -/
theorem splitOn_joinWith (hne : parts ≠ []) (h : ∀ part ∈ parts, c ∉ part) :
    splitOn c (joinWith [c] parts) = parts := by
  rw [splitOn_eq, joinWith_eq_intercalate, List.splitOn_intercalate c h hne]

/-- No separator is left in a part. -/
theorem not_mem_of_mem_splitOn {part cs : List Char} (h : part ∈ splitOn c cs) : c ∉ part := by
  induction cs generalizing part with
  | nil =>
    rw [splitOn, List.mem_singleton] at h
    simp [h]
  | cons d cs ih =>
    rw [splitOn] at h
    split at h
    · rcases List.mem_cons.mp h with rfl | h
      · simp
      · exact ih h
    next hd =>
      cases hs : splitOn c cs with
      | nil => exact absurd hs (splitOn_ne_nil c cs)
      | cons first parts =>
        rw [hs] at h ih
        rcases List.mem_cons.mp h with rfl | h
        · simp [ih List.mem_cons_self, Ne.symm hd]
        · exact ih (List.mem_cons_of_mem first h)

theorem joinWith_append_cons (sep front part : List Char) (parts : List (List Char)) :
    joinWith sep ((front ++ part) :: parts) = front ++ joinWith sep (part :: parts) := by
  cases parts with
  | nil => rfl
  | cons next parts => simp [joinWith]

/-- What comes behind the separator can be taken to the front of the next part. -/
theorem joinWith_append (sep after first : List Char) (parts : List (List Char)) :
    joinWith (sep ++ after) (first :: parts) = joinWith sep (first :: parts.map (after ++ ·)) := by
  induction parts generalizing first with
  | nil => rfl
  | cons part parts ih =>
    rw [joinWith_cons_of_ne_nil (List.cons_ne_nil _ _), ih part, List.map_cons,
      joinWith_cons_of_ne_nil (List.cons_ne_nil _ _), joinWith_append_cons]
    simp

end ThemeSheet.Text
