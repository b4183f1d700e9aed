import Mathlib.Tactic.Linarith
import ThemeSheet.Proofs.Number.Range

/-!
# How long the text of a number is

The digits of a number are chosen on a decimal grid near its leading digit, and there are not many
grids that a binary64 number can have: so its text is far shorter than that of the longest integer
that may be written. The bounds are rough ones.

## Main results

* `Decimal.Interval.isShort_search`: the digits of a number;
* `Decimal.length_text_le`: the length of its text.
-/

namespace ThemeSheet

namespace Binary64

/-- The binary exponent of a quotient is near the difference of the logarithms. -/
theorem log2Ratio_bounds (num den : Nat) :
    (num.log2 : Int) - den.log2 - 1 ≤ log2Ratio num den ∧
      log2Ratio num den ≤ (num.log2 : Int) - den.log2 := by
  rw [log2Ratio]
  split <;> omega

theorem roundQuotient_le_succ (num den : Nat) : roundQuotient num den ≤ num + 1 := by
  have hquotient : num / den ≤ num := Nat.div_le_self num den
  unfold roundQuotient
  dsimp only
  split
  · omega
  split
  · omega
  split <;> omega

end Binary64

namespace Decimal

variable {num den k : Nat} {e : Int} {d : Digits}

/-- The decimal exponent of a quotient is not far from zero if the binary one is not. -/
theorem log10Ratio_bounds {low high : Int} (hlow : low ≤ Binary64.log2Ratio num den)
    (hhigh : Binary64.log2Ratio num den ≤ high) :
    (low * 30103).fdiv 100000 - 1 ≤ log10Ratio num den ∧
      log10Ratio num den ≤ (high * 30103).fdiv 100000 + 1 := by
  simp only [log10Ratio, Int.fdiv_eq_ediv_of_nonneg _ (by decide : (0 : Int) ≤ 100000)]
  split
  · omega
  split <;> omega

/-! ### Digits -/

/-- A decimal has a coefficient of `k` digits at most and an exponent not beyond `k`. -/
structure IsShort (k : Nat) (d : Digits) : Prop where
  coefficient : d.coefficient < 10 ^ k
  exponent : d.exponent.natAbs ≤ k

/-- What is rounded or cut on a grid is at most one above the numerator. -/
theorem lt_of_le_inUnits {n : Nat} (hnum : num + 1 < 10 ^ k) (he : e.natAbs ≤ k)
    (hn : n ≤ (inUnits e num den).1 + 1) : n < 10 ^ (k + k) := by
  have hpow : 10 ^ e.natAbs ≤ 10 ^ k := Nat.pow_le_pow_right (by decide) he
  have hone : 1 ≤ 10 ^ k := Nat.one_le_pow _ _ (by decide)
  have hunits : (inUnits e num den).1 ≤ num * 10 ^ e.natAbs := by
    rw [inUnits]
    split
    · exact Nat.le_mul_of_pos_right _ (Nat.pow_pos (by decide))
    · have habs : (-e).toNat = e.natAbs := by omega
      rw [habs]
      exact Nat.le_refl _
  calc n ≤ num * 10 ^ e.natAbs + 1 := hn.trans (Nat.succ_le_succ hunits)
    _ ≤ num * 10 ^ k + 10 ^ k := Nat.add_le_add (Nat.mul_le_mul_left _ hpow) hone
    _ = (num + 1) * 10 ^ k := (Nat.succ_mul num _).symm
    _ < 10 ^ k * 10 ^ k := (Nat.mul_lt_mul_right hone).mpr hnum
    _ = 10 ^ (k + k) := (Nat.pow_add 10 k k).symm

variable {i : Interval}

/-- A neighbour on a grid is at most one above the numerator. -/
theorem Interval.le_of_onGrid? (h : i.onGrid? e = some d) :
    d.coefficient ≤ (inUnits e i.value i.den).1 + 1 ∧ d.exponent = e := by
  unfold Interval.onGrid? at h
  dsimp only at h
  generalize (inUnits e i.value i.den).1 = num, (inUnits e i.value i.den).2 = den at h ⊢
  have hnearest := Binary64.roundQuotient_le_succ num den
  have hother : (if Binary64.roundQuotient num den = num / den then num / den + 1
      else num / den) ≤ num + 1 := by
    have hbelow : num / den ≤ num := Nat.div_le_self num den
    split <;> omega
  generalize (if Binary64.roundQuotient num den = num / den then num / den + 1
    else num / den) = other at h hother
  split at h
  · cases h
    exact ⟨hnearest, rfl⟩
  split at h
  · cases h
    exact ⟨hother, rfl⟩
  · cases h

/-- **The digits of a number** are few, and so are those of its exponent. -/
theorem Interval.isShort_search (hvalue : i.value + 1 < 10 ^ k) (n : Nat) (e : Int)
    (hlow : (n : Int) - k ≤ e) (hhigh : e ≤ k) : IsShort (k + k) (i.search n e) := by
  induction n generalizing e with
  | zero =>
    have hcut : (inUnits e i.value i.den).1 / (inUnits e i.value i.den).2 ≤
        (inUnits e i.value i.den).1 + 1 := (Nat.div_le_self _ _).trans (Nat.le_succ _)
    unfold Interval.search
    exact ⟨lt_of_le_inUnits hvalue (by omega) hcut, by dsimp only; omega⟩
  | succ n ih =>
    unfold Interval.search
    split
    next d hd =>
      obtain ⟨hcoefficient, hexponent⟩ := Interval.le_of_onGrid? hd
      exact ⟨lt_of_le_inUnits hvalue (by omega) hcoefficient, by omega⟩
    next => exact ih (e - 1) (by omega) (by omega)

/-! ### Layout -/

theorem length_dropTrailingZeros_le (ds : List Char) :
    (dropTrailingZeros ds).length ≤ ds.length := by
  have hdropped := (List.dropWhile_suffix (l := ds.reverse) (· = '0')).length_le
  rw [dropTrailingZeros, List.length_reverse]
  rwa [List.length_reverse] at hdropped

theorem length_exponentDigits_le {n : Nat} (hk : 2 ≤ k) (h : n < 10 ^ k) :
    (exponentDigits n).length ≤ k := by
  have hlength := (Nat.length_toDigits_le_iff (b := 10) (by decide) (by omega)).mpr h
  rw [exponentDigits]
  split
  · rw [List.length_cons]
    omega
  · exact hlength

/-- The digits of a decimal that are written. -/
def significant (d : Digits) : List Char :=
  match dropTrailingZeros (Nat.toDigits 10 d.coefficient) with
  | [] => ['0']
  | kept => kept

/-- Digits laid out for the place of the leading one. -/
def Layout.place (style : Layout) (lead : Int) (ds : List Char) : List Char :=
  if style.lowest ≤ lead ∧ lead ≤ style.highest then
    if lead < 0 then '0' :: '.' :: (List.replicate (-lead - 1).toNat '0' ++ ds)
    else
      let whole := lead.toNat + 1
      if ds.length ≤ whole then
        ds ++ List.replicate (whole - ds.length) '0' ++ (if style.pointZero then ['.', '0'] else [])
      else ds.take whole ++ '.' :: ds.drop whole
  else
    let mantissa := match ds with
      | [] => []
      | [c] => [c]
      | c :: rest => c :: '.' :: rest
    mantissa ++ 'e' :: (if lead < 0 then '-' else '+') :: exponentDigits lead.natAbs

theorem Layout.write_eq (style : Layout) (d : Digits) : style.write d =
    style.place (d.exponent + ((Nat.toDigits 10 d.coefficient).length : Int) - 1)
      (significant d) := rfl

theorem length_place_le {lead : Int} {ds : List Char} (hds : ds.length ≤ k)
    (hlead : lead.natAbs < 10 ^ 4) : (Layout.plain.place lead ds).length ≤ k + 20 := by
  unfold Layout.place
  split
  next hplain =>
    obtain ⟨hlow, hhigh⟩ : -4 ≤ lead ∧ lead ≤ 15 := hplain
    by_cases hnegative : lead < 0
    · rw [if_pos hnegative]
      simp only [List.length_cons, List.length_append, List.length_replicate]
      omega
    rw [if_neg hnegative]
    dsimp only
    by_cases hwhole : ds.length ≤ lead.toNat + 1
    · have hzero : (if Layout.plain.pointZero then ['.', '0'] else []).length = 2 := rfl
      rw [if_pos hwhole, List.length_append, List.length_append, List.length_replicate, hzero]
      omega
    rw [if_neg hwhole]
    simp only [List.length_cons, List.length_append, List.length_take, List.length_drop]
    omega
  next =>
    have hdigits := length_exponentDigits_le (by decide) hlead
    have hmantissa : (match ds with
      | [] => []
      | [c] => [c]
      | c :: rest => c :: '.' :: rest).length ≤ k + 1 := by
      split
      · simp
      · simp
      · simp only [List.length_cons] at hds ⊢
        omega
    rw [List.length_append, List.length_cons, List.length_cons]
    omega

/-- The text of a decimal has not many more characters than the decimal has digits. -/
theorem length_write_le (hk : 0 < k) (hsmall : k + k < 10 ^ 4) (h : IsShort k d) :
    (Layout.plain.write d).length ≤ k + 20 := by
  have hall := (Nat.length_toDigits_le_iff (b := 10) (by decide) hk).mpr h.coefficient
  have hexponent := h.exponent
  rw [Layout.write_eq]
  refine length_place_le ?_ (by omega)
  have hkept := length_dropTrailingZeros_le (Nat.toDigits 10 d.coefficient)
  unfold significant
  split
  · exact hk
  · exact hkept.trans hall

theorem length_withSign_le (negative : Bool) (cs : List Char) :
    (withSign negative cs).length ≤ cs.length + 1 := by
  rw [withSign]
  split
  · exact Nat.le_refl _
  · exact Nat.le_succ _

/-! ### Numbers -/

section Interval

variable {m bits : Nat} {q : Int}

theorem shiftLeft_lt {n shift : Nat} (hn : n < 2 ^ bits) (hshift : shift ≤ k) :
    n <<< shift < 2 ^ (bits + k) := by
  have hpow : 2 ^ shift ≤ 2 ^ k := Nat.pow_le_pow_right (by decide) hshift
  rw [Nat.shiftLeft_eq, Nat.pow_add]
  calc n * 2 ^ shift
      ≤ n * 2 ^ k := Nat.mul_le_mul_left _ hpow
    _ < 2 ^ bits * 2 ^ k := (Nat.mul_lt_mul_right (Nat.two_pow_pos k)).mpr hn

theorem interval_value_lt (hm : 4 * m < 2 ^ bits) (hq : q ≤ k) :
    (interval m q).value < 2 ^ (bits + k) := by
  show (if 0 ≤ q then (4 * m) <<< q.toNat else 4 * m) < 2 ^ (bits + k)
  split
  · exact shiftLeft_lt hm (by omega)
  · exact Nat.lt_of_lt_of_le hm (Nat.pow_le_pow_right (by decide) (Nat.le_add_right _ _))

theorem interval_den_lt (m : Nat) (hq : -(k : Int) ≤ q) : (interval m q).den < 2 ^ (3 + k) := by
  show (if 0 ≤ q then 4 else 4 <<< (-q).toNat) < 2 ^ (3 + k)
  split
  · exact Nat.lt_of_lt_of_le (by decide : 4 < 2 ^ 3)
      (Nat.pow_le_pow_right (by decide) (Nat.le_add_right _ _))
  · exact shiftLeft_lt (by decide) (by omega)

theorem log2_lt_of_lt {n : Nat} (hbits : 0 < bits) (h : n < 2 ^ bits) : n.log2 < bits := by
  by_cases hn : n = 0
  · subst hn
    exact hbits
  · exact (Nat.log2_lt hn).mpr h

theorem succ_lt_ten_pow {n : Nat} (h : n < 2 ^ bits) (hbits : bits < k) : n + 1 < 10 ^ k :=
  calc n + 1
      ≤ 2 ^ bits := h
    _ < 2 ^ k := Nat.pow_lt_pow_right (by decide) hbits
    _ ≤ 10 ^ k := Nat.pow_le_pow_left (by decide) k

/-- The value of a mantissa and an exponent of binary64. -/
theorem interval_value_lt_of_bounds (hm : m < 2 ^ 53) (hq : q ≤ 971) :
    (interval m q).value < 2 ^ (55 + 971) :=
  interval_value_lt (by omega) hq

/-- The grid where the search for the digits of a number begins. -/
theorem log10Ratio_interval_bounds (hm : m < 2 ^ 53) (hlow : -1074 ≤ q) (hhigh : q ≤ 971) :
    -326 ≤ log10Ratio (interval m q).value (interval m q).den ∧
      log10Ratio (interval m q).value (interval m q).den ≤ 310 := by
  have hvalue := log2_lt_of_lt (by decide) (interval_value_lt_of_bounds hm hhigh)
  have hden := log2_lt_of_lt (by decide) (interval_den_lt (k := 1074) m hlow)
  obtain ⟨hleast, hmost⟩ :=
    Binary64.log2Ratio_bounds (interval m q).value (interval m q).den
  have hlow : (-1077 : Int) ≤ Binary64.log2Ratio (interval m q).value (interval m q).den := by omega
  have hhigh : Binary64.log2Ratio (interval m q).value (interval m q).den ≤ (1025 : Int) := by omega
  obtain ⟨hfirst, hlast⟩ := log10Ratio_bounds hlow hhigh
  exact ⟨hfirst.trans' (by decide), hlast.trans (by decide)⟩

end Interval

/-- **The text of a number is short**: an integer may have more digits. -/
theorem length_text_le {x : Binary64} (h : x.Bounded) :
    (text x).toList.length ≤ integerDigitLimit := by
  cases x with
  | nan s => exact (by decide : "nan".toList.length ≤ integerDigitLimit)
  | infinite s =>
    rw [text, String.toList_ofList]
    exact (length_withSign_le s _).trans (by decide)
  | finite s m q =>
    rw [text, String.toList_ofList]
    refine (length_withSign_le s _).trans ?_
    split
    · decide
    · obtain ⟨hlow, hhigh⟩ := log10Ratio_interval_bounds h.1 h.2.1 h.2.2
      have hvalue := succ_lt_ten_pow (k := 1100) (interval_value_lt_of_bounds h.1 h.2.2) (by decide)
      have hdigits := Interval.isShort_search hvalue 17
        (log10Ratio (interval m q).value (interval m q).den) (by omega) (by omega)
      have hlength := length_write_le (by decide) (by decide) hdigits
      rw [shortest]
      exact (Nat.succ_le_succ hlength).trans (by decide)

end Decimal

end ThemeSheet
