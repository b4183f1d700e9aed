import ThemeSheet.Number.Binary64
import ThemeSheet.Text.Digit

/-!
# Numerals

The parts of a decimal numeral at the beginning of a text: a sign, digits, a fraction with at least
one digit after its point, and an exponent with at least one digit. Each part is read with the rest
of the text, which is always a suffix of it; a part that is incomplete is not read at all.

## Main definitions

* `Numeral.sign`, `Numeral.digits`, `Numeral.fraction`, `Numeral.exponent`;
* `Numeral.short?`, a number of few digits;
* `Numeral.value`, the value of digits; `Numeral.float`, the number of a whole numeral.
-/

namespace ThemeSheet.Numeral

open Text (isAsciiDigit)

/-- The value of ASCII digits. -/
def value (ds : List Char) : Nat := ds.foldl (fun n d => n * 10 + (d.toNat - 48)) 0

/-- Whether a minus sign comes first, and the text after the sign. -/
def sign : List Char → Bool × List Char
  | '-' :: rest => (true, rest)
  | '+' :: rest => (false, rest)
  | cs => (false, cs)

/-- The digits a text begins with, and the rest. -/
def digits (cs : List Char) : List Char × List Char :=
  (cs.takeWhile isAsciiDigit, cs.dropWhile isAsciiDigit)

/-- The number of the digits a text begins with, of which no more than `most` are taken and which
may not be fewer than `least`, and the rest. -/
def short? (least most : Nat) (cs : List Char) : Option (Nat × List Char) :=
  let ds := (cs.take most).takeWhile isAsciiDigit
  if ds.length < least then none else some (value ds, cs.drop ds.length)

/-- The digits of a fraction and the rest, if a point with a digit comes first. -/
def fraction (cs : List Char) : List Char × List Char :=
  match cs with
  | '.' :: rest => if (digits rest).1.isEmpty then ([], cs) else digits rest
  | _ => ([], cs)

/-- An exponent and the rest, if an exponent mark with a digit comes first. -/
def exponent (cs : List Char) : Option Int × List Char :=
  match cs with
  | c :: rest =>
    if c = 'e' ∨ c = 'E' then
      let (negative, body) := sign rest
      let (ds, rest') := digits body
      if ds.isEmpty then (none, cs) else (some (Binary64.signed negative (value ds)), rest')
    else (none, cs)
  | [] => (none, cs)

/-- The number of a numeral with a fraction or an exponent. -/
def float (negative : Bool) (whole fraction : List Char) (exponent : Option Int) : Binary64 :=
  .ofDecimal negative (value (whole ++ fraction)) (exponent.getD 0 - (fraction.length : Int))

/-! ### Rests are suffixes -/

theorem sign_suffix (cs : List Char) : (sign cs).2 <:+ cs := by
  unfold sign
  split
  · exact List.suffix_cons _ _
  · exact List.suffix_cons _ _
  · exact List.suffix_rfl

theorem digits_suffix (cs : List Char) : (digits cs).2 <:+ cs := List.dropWhile_suffix _

theorem fraction_suffix (cs : List Char) : (fraction cs).2 <:+ cs := by
  unfold fraction
  split
  · split
    · exact List.suffix_rfl
    · exact (digits_suffix _).trans (List.suffix_cons _ _)
  · exact List.suffix_rfl

theorem exponent_suffix (cs : List Char) : (exponent cs).2 <:+ cs := by
  unfold exponent
  split
  · split
    · dsimp only
      split
      · exact List.suffix_rfl
      · exact ((digits_suffix _).trans (sign_suffix _)).trans (List.suffix_cons _ _)
    · exact List.suffix_rfl
  · exact List.suffix_rfl

/-! ### What is read is passed over -/

theorem digits_suffix_tail {c : Char} {cs : List Char} (h : (digits (c :: cs)).1 ≠ []) :
    (digits (c :: cs)).2 <:+ cs := by
  by_cases hc : isAsciiDigit c = true
  · simp only [digits, List.dropWhile_cons, hc, if_true]
    exact List.dropWhile_suffix _
  · simp [digits, hc] at h

theorem fraction_suffix_tail {c : Char} {cs : List Char} (h : (fraction (c :: cs)).1 ≠ []) :
    (fraction (c :: cs)).2 <:+ cs := by
  unfold fraction at h ⊢
  split
  · next rest heq =>
    cases heq
    split
    · next he => simp [he] at h
    · exact digits_suffix _
  · next hne =>
    split at h
    · next rest heq => exact absurd heq (hne rest)
    · exact absurd rfl h

end ThemeSheet.Numeral
