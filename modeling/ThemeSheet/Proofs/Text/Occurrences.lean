import ThemeSheet.Text.Chars

/-!
# First occurrences

A mark stands in a text behind a front. If it does not begin inside the front already, it is found
there and nowhere before: what follows its first occurrence is what stands behind it, and replacing
it leaves the front as it is. Whether it begins inside the front does not depend on what follows, so
for a fixed mark and a fixed front it can be computed.

## Main definitions

* `Text.after?`, what follows the first occurrence of a mark.

## Main results

* `Text.afterStart?_append`, `Text.append_of_afterStart?`: what follows a beginning;
* `Text.occursIn_iff`: what occurs in a text is a part of it;
* `Text.after?_append`, `Text.replaceAll_append`: a mark that does not begin inside the front;
* `Text.replaceAll_eq_self`: a mark that does not occur;
* `Text.takeWhile_append_cons`: what stands before a character.
-/

namespace ThemeSheet.Text

variable {mark new front start rest cs : List Char} {c : Char}

/-! ### Beginnings -/

theorem afterStart?_append (start rest : List Char) :
    afterStart? start (start ++ rest) = some rest := by
  induction start with
  | nil => rfl
  | cons p start ih => rw [List.cons_append, afterStart?, if_pos rfl, ih]

theorem append_of_afterStart? (h : afterStart? start cs = some rest) : cs = start ++ rest := by
  induction start generalizing cs with
  | nil =>
    cases h
    rfl
  | cons p start ih =>
    cases cs with
    | nil => cases h
    | cons c cs =>
      rw [afterStart?] at h
      split at h
      next heq => rw [heq, ih h, List.cons_append]
      next => cases h

theorem afterStart?_eq_none (h : ¬start <+: cs) : afterStart? start cs = none := by
  rw [Option.eq_none_iff_forall_ne_some]
  intro rest hrest
  exact h ⟨rest, (append_of_afterStart? hrest).symm⟩

/-- A pattern occurs in a text if it is a part of it. -/
theorem occursIn_iff {pattern : List Char} : occursIn pattern cs = true ↔ pattern <:+: cs := by
  induction cs with
  | nil => rw [occursIn, List.isEmpty_iff, List.infix_nil]
  | cons c rest ih =>
    rw [occursIn, Bool.or_eq_true, List.isPrefixOf_iff_prefix, ih, List.infix_cons_iff]

/-! ### A mark behind a front -/

/-- A mark that does not begin inside a front does not begin at its first character, whatever
follows the mark. -/
theorem not_prefix_of_occursIn (h : occursIn mark (c :: front ++ mark.dropLast) = false)
    (rest : List Char) : ¬mark <+: c :: (front ++ mark ++ rest) := by
  intro hprefix
  have hfront : c :: front ++ mark.dropLast <+: c :: (front ++ mark ++ rest) := by
    have hlast := (List.dropLast_prefix mark).trans (List.prefix_append mark rest)
    rw [List.append_assoc, List.cons_append, List.prefix_cons_inj]
    exact (List.prefix_append_right_inj front).mpr hlast
  have hlength : mark.length ≤ (c :: front ++ mark.dropLast).length := by
    simp only [List.cons_append, List.length_cons, List.length_append, List.length_dropLast]
    omega
  have hinside := List.prefix_of_prefix_length_le hprefix hfront hlength
  rw [List.cons_append, occursIn, Bool.or_eq_false_iff] at h
  rw [← List.isPrefixOf_iff_prefix, List.cons_append, h.1] at hinside
  cases hinside

/-- A mark that does not begin inside a front does not begin inside the rest of it. -/
theorem occursIn_tail (h : occursIn mark (c :: front ++ mark.dropLast) = false) :
    occursIn mark (front ++ mark.dropLast) = false := by
  rw [List.cons_append, occursIn, Bool.or_eq_false_iff] at h
  exact h.2

/-! ### What follows -/

/-- What follows the first occurrence of a mark in a text. -/
def after? (mark : List Char) : List Char → Option (List Char)
  | [] => none
  | c :: rest => (afterStart? mark (c :: rest)).or (after? mark rest)

/-- **A mark that does not begin inside a front is found behind it.** -/
theorem after?_append (hmark : mark ≠ []) (h : occursIn mark (front ++ mark.dropLast) = false)
    (rest : List Char) : after? mark (front ++ mark ++ rest) = some rest := by
  induction front with
  | nil =>
    obtain ⟨p, ps, rfl⟩ := List.exists_cons_of_ne_nil hmark
    have hstart := afterStart?_append (p :: ps) rest
    rw [List.cons_append] at hstart
    rw [List.nil_append, List.cons_append, after?, hstart, Option.some_or]
  | cons c front ih =>
    rw [List.cons_append, List.cons_append, after?,
      afterStart?_eq_none (not_prefix_of_occursIn h rest), Option.none_or, ih (occursIn_tail h)]

/-- What stands before the first occurrence of a character. -/
theorem takeWhile_append_cons {stop : Char} (h : stop ∉ front) (rest : List Char) :
    (front ++ stop :: rest).takeWhile (· ≠ stop) = front := by
  rw [List.takeWhile_append_of_pos]
  · simp
  · intro c hc
    rw [decide_eq_true_eq]
    exact ne_of_mem_of_not_mem hc h

/-! ### Replacing -/

theorem replaceFrom_length_append (mark new seen rest : List Char) :
    replaceFrom mark new seen.length (seen ++ rest) = replaceAll mark new rest := by
  induction seen with
  | nil => rfl
  | cons c seen ih => rw [List.length_cons, List.cons_append, replaceFrom, ih]

/-- **Replacing a mark that does not begin inside a front** leaves the front as it is. -/
theorem replaceAll_append (hmark : mark ≠ [])
    (h : occursIn mark (front ++ mark.dropLast) = false) (new rest : List Char) :
    replaceAll mark new (front ++ mark ++ rest) = front ++ new ++ replaceAll mark new rest := by
  induction front with
  | nil =>
    obtain ⟨p, ps, rfl⟩ := List.exists_cons_of_ne_nil hmark
    have hprefix : (p :: ps).isPrefixOf (p :: (ps ++ rest)) = true :=
      List.isPrefixOf_iff_prefix.mpr ⟨rest, rfl⟩
    rw [List.nil_append, List.nil_append, List.cons_append, replaceAll, replaceFrom,
      if_pos hprefix, List.length_cons, Nat.add_sub_cancel, replaceFrom_length_append]
  | cons c front ih =>
    have hprefix : ¬mark.isPrefixOf (c :: (front ++ mark ++ rest)) = true := by
      rw [List.isPrefixOf_iff_prefix]
      exact not_prefix_of_occursIn h rest
    rw [List.cons_append, List.cons_append, replaceAll, replaceFrom, if_neg hprefix, ← replaceAll,
      ih (occursIn_tail h)]
    rfl

/-- Nothing is replaced where the mark does not occur. -/
theorem replaceAll_eq_self (h : occursIn mark cs = false) (new : List Char) :
    replaceAll mark new cs = cs := by
  induction cs with
  | nil => rfl
  | cons c cs ih =>
    rw [occursIn, Bool.or_eq_false_iff] at h
    rw [replaceAll, replaceFrom, if_neg (by simp [h.1]), ← replaceAll, ih h.2]

end ThemeSheet.Text
