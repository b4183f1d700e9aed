/-!
# Letters of slugs

A slug is written with the letters of Latin-1 in their two cases, without the signs `×` and `÷` that
stand among them, and with digits. This module has the two classes and the change of case between
them; `ß` and `ÿ` are small letters whose capitals are not among them.

## Main results

* `isSmall_toSmall`: a letter of either class becomes a small one.
-/

namespace ThemeSheet.Slug

/-- The small letters: `a` to `z`, and those of Latin-1. -/
def isSmall (c : Char) : Bool :=
  let n := c.toNat
  (decide (97 ≤ n) && decide (n ≤ 122)) || (decide (0xDF ≤ n) && decide (n ≤ 0xF6)) ||
    (decide (0xF8 ≤ n) && decide (n ≤ 0xFF))

/-- The capitals: `A` to `Z`, and those of Latin-1. -/
def isCapital (c : Char) : Bool :=
  let n := c.toNat
  (decide (65 ≤ n) && decide (n ≤ 90)) || (decide (0xC0 ≤ n) && decide (n ≤ 0xD6)) ||
    (decide (0xD8 ≤ n) && decide (n ≤ 0xDE))

/-- Whether a character is a letter of either class. -/
def isLetter (c : Char) : Bool := isSmall c || isCapital c

/-- The small letter of a capital; every other character is left alone. -/
def toSmall (c : Char) : Char := if isCapital c then Char.ofNat (c.toNat + 32) else c

theorem not_isCapital_of_isSmall {c : Char} (h : isSmall c = true) : isCapital c = false := by
  simp only [isSmall, isCapital, Bool.or_eq_true, Bool.and_eq_true, decide_eq_true_eq,
    Bool.or_eq_false_iff, Bool.and_eq_false_iff, decide_eq_false_iff_not] at *
  omega

theorem toNat_toSmall {c : Char} (h : isCapital c = true) : (toSmall c).toNat = c.toNat + 32 := by
  rw [toSmall, if_pos h]
  simp only [isCapital, Bool.or_eq_true, Bool.and_eq_true, decide_eq_true_eq] at h
  have hv : (c.toNat + 32).isValidChar := by left; omega
  rw [Char.ofNat, dif_pos hv]
  rfl

theorem isSmall_toSmall {c : Char} (h : isLetter c = true) : isSmall (toSmall c) = true := by
  by_cases hc : isCapital c = true
  · have hn := toNat_toSmall hc
    simp only [isCapital, Bool.or_eq_true, Bool.and_eq_true, decide_eq_true_eq] at hc
    simp only [isSmall, hn, Bool.or_eq_true, Bool.and_eq_true, decide_eq_true_eq]
    omega
  · have hs : isSmall c = true := by simpa [isLetter, hc] using h
    rwa [toSmall, if_neg hc]

end ThemeSheet.Slug
