import Mathlib.Data.List.DropRight
import ThemeSheet.Text.Chars

/-!
# Texts without blanks at their ends

Trimming takes characters of a class off both ends of a text. What is left has none of them at
either end, so trimming again takes nothing off; and since trimming looks at the ends alone, neither
does it where two trimmed texts stand at the ends of a longer one. What is not of the class is never
taken off, and so is no part of the text that has nothing of the class in it.

## Main results

* `Text.trimBy_trimBy`, `Text.trimBy_append_trimBy`: nothing is left to take off;
* `Text.trimBy_cons_of_pos`: a character in front that is taken off;
* `Text.isInfix_trimBy`, `Text.trimBy_isInfix`: what stays.
-/

namespace ThemeSheet.Text

variable {p : Char → Bool} {c : Char} {u cs : List Char}

/-! ### One end -/

/-- A part of which no character is dropped stays. -/
theorem isInfix_dropWhile (hu : ∀ c ∈ u, p c = false) (h : u <:+: cs) : u <:+: cs.dropWhile p := by
  induction cs with
  | nil => exact h
  | cons c cs ih =>
    rw [List.dropWhile_cons]
    split
    next hc =>
      rcases List.infix_cons_iff.mp h with hstart | hwithin
      · cases u with
        | nil => exact List.nil_infix
        | cons d u =>
          obtain ⟨rfl, -⟩ := List.cons_prefix_cons.mp hstart
          rw [hu d List.mem_cons_self] at hc
          cases hc
      · exact ih hwithin
    next => exact h

/-- A character that is not dropped stays. -/
theorem mem_dropWhile (hc : p c = false) (h : c ∈ cs) : c ∈ cs.dropWhile p := by
  obtain ⟨before, after, rfl⟩ := List.append_of_mem h
  have hwithin : [c] <:+: before ++ c :: after := ⟨before, after, by simp⟩
  exact (isInfix_dropWhile (by simpa using hc) hwithin).subset List.mem_cons_self

/-- Where nothing is dropped of what comes first, nothing is dropped. -/
theorem dropWhile_append_of_ne_nil (h : cs.dropWhile p = cs) (hne : cs ≠ []) (after : List Char) :
    (cs ++ after).dropWhile p = cs ++ after := by
  rw [List.dropWhile_append, h, if_neg (by simpa using hne)]

/-! ### Both ends -/

theorem isInfix_trimBy (hu : ∀ c ∈ u, p c = false) (h : u <:+: cs) : u <:+: trimBy p cs := by
  rw [trimBy]
  have hfront := isInfix_dropWhile hu h
  have hback : u.reverse <:+: (cs.dropWhile p).reverse.dropWhile p :=
    isInfix_dropWhile (fun c hc => hu c (List.mem_reverse.mp hc)) (List.reverse_infix.mpr hfront)
  rw [← List.reverse_infix, List.reverse_reverse]
  exact hback

theorem trimBy_isInfix (p : Char → Bool) (cs : List Char) : trimBy p cs <:+: cs :=
  (List.rdropWhile_prefix p _).isInfix.trans (List.dropWhile_suffix p).isInfix

theorem trimBy_cons_of_pos (h : p c = true) (cs : List Char) :
    trimBy p (c :: cs) = trimBy p cs := by
  rw [trimBy, List.dropWhile_cons_of_pos h, ← trimBy]

/-- Nothing is left to take off in front. -/
theorem dropWhile_trimBy (p : Char → Bool) (cs : List Char) :
    (trimBy p cs).dropWhile p = trimBy p cs := by
  rw [List.dropWhile_eq_self_iff]
  intro hlength
  have hstart : trimBy p cs <+: cs.dropWhile p := List.rdropWhile_prefix p _
  rw [hstart.getElem hlength]
  exact List.dropWhile_get_zero_not p cs _

/-- Nothing is left to take off at the back. -/
theorem dropWhile_reverse_trimBy (p : Char → Bool) (cs : List Char) :
    (trimBy p cs).reverse.dropWhile p = (trimBy p cs).reverse := by
  rw [trimBy, List.reverse_reverse, List.dropWhile_idempotent]

/-- Nothing is left to take off at the ends. -/
theorem trimBy_trimBy (p : Char → Bool) (cs : List Char) :
    trimBy p (trimBy p cs) = trimBy p cs := by
  rw [trimBy, dropWhile_trimBy, dropWhile_reverse_trimBy, List.reverse_reverse]

/-- **Nothing is taken off where trimmed texts stand at the ends.** -/
theorem trimBy_append_trimBy {first last : List Char} (hfirst : trimBy p first ≠ [])
    (hlast : trimBy p last ≠ []) (between : List Char) :
    trimBy p (trimBy p first ++ (between ++ trimBy p last)) =
      trimBy p first ++ (between ++ trimBy p last) := by
  have hfront : (trimBy p first ++ (between ++ trimBy p last)).dropWhile p =
      trimBy p first ++ (between ++ trimBy p last) :=
    dropWhile_append_of_ne_nil (dropWhile_trimBy p first) hfirst _
  have hback : (trimBy p first ++ (between ++ trimBy p last)).reverse.dropWhile p =
      (trimBy p first ++ (between ++ trimBy p last)).reverse := by
    rw [List.reverse_append, List.reverse_append, List.append_assoc]
    exact dropWhile_append_of_ne_nil (dropWhile_reverse_trimBy p last) (by simpa using hlast) _
  rw [trimBy, hfront, hback, List.reverse_reverse]

end ThemeSheet.Text
