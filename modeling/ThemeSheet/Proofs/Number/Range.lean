import Mathlib.Algebra.Group.Nat.Defs
import ThemeSheet.Number.Decimal

/-!
# The range of binary64 numbers

A finite number has a mantissa of 53 bits at most and an exponent from -1074 to 971. Rounding keeps
to these bounds, so every number that is read is within them. For an integral number the upper ones
are enough to have few enough digits to be written.

## Main definitions

* `Binary64.Bounded`, of mantissas and exponents that binary64 has;
* `Binary64.InRange`, of those that are not too large.

## Main results

* `bounded_ofRatio`, `bounded_ofDecimal`: what is rounded and what is read is bounded;
* `ofRatio_ne_infinite`: a quotient that is not too large is finite;
* `natAbs_truncate_lt`, `intText?_of_lt`: the integers of numbers in range can be written.
-/

namespace ThemeSheet.Binary64

/-- A finite number has a mantissa of 53 bits at most and an exponent of 971 at most. -/
def InRange : Binary64 → Prop
  | .finite _ m q => m < 2 ^ 53 ∧ q ≤ 971
  | _ => True

/-- A finite number has a mantissa of 53 bits at most and an exponent from -1074 to 971. -/
def Bounded : Binary64 → Prop
  | .finite _ m q => m < 2 ^ 53 ∧ -1074 ≤ q ∧ q ≤ 971
  | _ => True

theorem Bounded.inRange {x : Binary64} (h : x.Bounded) : x.InRange := by
  cases x with
  | finite s m q => exact ⟨h.1, h.2.2⟩
  | _ => exact True.intro

section

variable {num den bound x y x' y' : Nat} {e e' : Int}

/-! ### Rounding -/

/-- A quotient below a natural number is rounded to that number at most. -/
theorem roundQuotient_le (h : num < den * bound) : roundQuotient num den ≤ bound := by
  have hquotient : num / den < bound := Nat.div_lt_of_lt_mul h
  unfold roundQuotient
  dsimp only
  split
  · omega
  split
  · omega
  split <;> omega

/-- Two sides of a comparison are scaled by powers of two. -/
theorem scaled_lt (h : num * 2 ^ x < den * 2 ^ y) (hle : x' + y ≤ x + y') :
    num * 2 ^ x' < den * 2 ^ y' := by
  have hpow : 2 ^ (x' + y) ≤ 2 ^ (x + y') := Nat.pow_le_pow_right (by decide) hle
  refine Nat.lt_of_mul_lt_mul_right (a := 2 ^ y) ?_
  calc num * 2 ^ x' * 2 ^ y
      = num * 2 ^ (x' + y) := by rw [Nat.mul_assoc, ← Nat.pow_add]
    _ ≤ num * 2 ^ (x + y') := Nat.mul_le_mul_left _ hpow
    _ = num * 2 ^ x * 2 ^ y' := by rw [Nat.pow_add, Nat.mul_assoc]
    _ < den * 2 ^ y * 2 ^ y' := (Nat.mul_lt_mul_right (Nat.two_pow_pos y')).mpr h
    _ = den * 2 ^ y' * 2 ^ y := Nat.mul_right_comm _ _ _

/-- `num / den` is below a power of two. -/
theorem twoPowLe_eq_false_iff :
    twoPowLe e num den = false ↔ num * 2 ^ (-e).toNat < den * 2 ^ e.toNat := by
  rw [twoPowLe]
  split
  next he =>
    have hzero : (-e).toNat = 0 := by omega
    rw [hzero, decide_eq_false_iff_not, Nat.not_le, Nat.shiftLeft_eq, Nat.pow_zero, Nat.mul_one]
  next he =>
    have hzero : e.toNat = 0 := by omega
    rw [hzero, decide_eq_false_iff_not, Nat.not_le, Nat.shiftLeft_eq, Nat.pow_zero, Nat.mul_one]

/-- A larger power of two is above `num / den` too. -/
theorem twoPowLe_mono (h : twoPowLe e num den = false) (hle : e ≤ e') :
    twoPowLe e' num den = false := by
  rw [twoPowLe_eq_false_iff] at h ⊢
  exact scaled_lt h (by omega)

/-- The binary exponent is the largest that is not above `num / den`. -/
theorem twoPowLe_log2Ratio (hden : den ≠ 0) :
    twoPowLe (log2Ratio num den + 1) num den = false := by
  unfold log2Ratio
  dsimp only
  split
  next =>
    have hupper : num < 2 ^ (num.log2 + 1) := Nat.lt_log2_self
    have hlower : 2 ^ den.log2 ≤ den := Nat.log2_self_le hden
    have hlt : num * 2 ^ den.log2 < den * 2 ^ (num.log2 + 1) := by
      rw [Nat.mul_comm den]
      exact Nat.mul_lt_mul_of_lt_of_le' hupper hlower (Nat.two_pow_pos _)
    rw [twoPowLe_eq_false_iff]
    exact scaled_lt hlt (by omega)
  next h =>
    rw [Int.sub_add_cancel]
    exact Bool.eq_false_iff.mpr h

/-- The binary exponent is not above `num / den`. -/
theorem log2Ratio_lt (hnum : num ≠ 0) (h : twoPowLe e num den = false) :
    log2Ratio num den < e := by
  refine Int.not_le.mp fun hle => ?_
  have hlog : twoPowLe (log2Ratio num den) num den = false := twoPowLe_mono h hle
  unfold log2Ratio at hlog
  dsimp only at hlog
  split at hlog
  next htrue => exact absurd (htrue.symm.trans hlog) (by decide)
  next =>
    have hlower : 2 ^ num.log2 ≤ num := Nat.log2_self_le hnum
    have hupper : den < 2 ^ (den.log2 + 1) := Nat.lt_log2_self
    rw [twoPowLe_eq_false_iff] at hlog
    generalize hup : (-((num.log2 : Int) - (den.log2 : Int) - 1)).toNat = up at hlog
    generalize hdown : ((num.log2 : Int) - (den.log2 : Int) - 1).toNat = down at hlog
    have hpow : 2 ^ (num.log2 + up) < 2 ^ (den.log2 + 1 + down) :=
      calc 2 ^ (num.log2 + up)
          = 2 ^ num.log2 * 2 ^ up := Nat.pow_add _ _ _
        _ ≤ num * 2 ^ up := Nat.mul_le_mul_right _ hlower
        _ < den * 2 ^ down := hlog
        _ ≤ 2 ^ (den.log2 + 1) * 2 ^ down := Nat.mul_le_mul_right _ (Nat.le_of_lt hupper)
        _ = 2 ^ (den.log2 + 1 + down) := (Nat.pow_add _ _ _).symm
    have hexponents := (Nat.pow_lt_pow_iff_right (by decide)).mp hpow
    omega

end

/-- **A quotient that is not too large is finite.** -/
theorem ofRatio_ne_infinite {num den top : Nat} (h : num < den * 2 ^ top) (htop : top ≤ 1023)
    (negative s : Bool) : ofRatio negative num den ≠ .infinite s := by
  have hden : den ≠ 0 := by
    rintro rfl
    rw [Nat.zero_mul] at h
    exact Nat.not_lt_zero _ h
  rw [ofRatio]
  split
  · exact fun heq => by cases heq
  next hnum =>
    have hbelow : twoPowLe top num den = false := by
      have hzero : (-(top : Int)).toNat = 0 := by omega
      rwa [twoPowLe_eq_false_iff, hzero, Int.toNat_natCast, Nat.pow_zero, Nat.mul_one]
    have hlog : log2Ratio num den < top := log2Ratio_lt hnum hbelow
    dsimp only
    generalize (if 0 ≤ max (log2Ratio num den - 52) (-1074) then
      roundQuotient num (den <<< (max (log2Ratio num den - 52) (-1074)).toNat)
      else roundQuotient (num <<< (-max (log2Ratio num den - 52) (-1074)).toNat) den) = m
    by_cases hcarry : m = Nat.pow 2 53
    · rw [if_pos hcarry]
      dsimp only
      rw [if_neg (by omega)]
      exact fun heq => by cases heq
    · rw [if_neg hcarry]
      dsimp only
      rw [if_neg (by omega)]
      exact fun heq => by cases heq

theorem bounded_zero (negative : Bool) : (zero negative).Bounded :=
  ⟨Nat.two_pow_pos 53, Int.le_refl _, by decide⟩

/-- The mantissa of a quotient at an exponent that is large enough. -/
theorem mantissa_le {num den : Nat} {q : Int} (h : twoPowLe (q + 53) num den = false) :
    (if 0 ≤ q then roundQuotient num (den <<< q.toNat)
      else roundQuotient (num <<< (-q).toNat) den) ≤ 2 ^ 53 := by
  rw [twoPowLe_eq_false_iff] at h
  split
  · refine roundQuotient_le ?_
    rw [Nat.shiftLeft_eq, Nat.mul_assoc, ← Nat.pow_add]
    have hscaled : num * 2 ^ 0 < den * 2 ^ (q.toNat + 53) := scaled_lt h (by omega)
    rwa [Nat.pow_zero, Nat.mul_one] at hscaled
  · refine roundQuotient_le ?_
    rw [Nat.shiftLeft_eq]
    exact scaled_lt h (by omega)

/-- **What is rounded is bounded.** -/
theorem bounded_ofRatio (negative : Bool) (num den : Nat) (hden : den ≠ 0) :
    (ofRatio negative num den).Bounded := by
  rw [ofRatio]
  split
  · exact bounded_zero negative
  next =>
    dsimp only
    generalize hq : max (log2Ratio num den - 52) (-1074) = q
    have hlow : -1074 ≤ q := hq ▸ Int.le_max_right _ _
    have hlog : twoPowLe (log2Ratio num den + 1) num den = false := twoPowLe_log2Ratio hden
    have hbound : twoPowLe (q + 53) num den = false := twoPowLe_mono hlog (by omega)
    have hm := mantissa_le hbound
    generalize (if 0 ≤ q then roundQuotient num (den <<< q.toNat)
        else roundQuotient (num <<< (-q).toNat) den) = m at hm
    -- A mantissa that is rounded up to a power of two is halved.
    by_cases hcarry : m = Nat.pow 2 53
    · rw [if_pos hcarry]
      dsimp only
      split
      · trivial
      · exact ⟨by decide, by omega, by omega⟩
    · rw [if_neg hcarry]
      dsimp only
      split
      · trivial
      · exact ⟨Nat.lt_of_le_of_ne hm hcarry, hlow, by omega⟩

/-- **What is read is bounded.** -/
theorem bounded_ofDecimal (negative : Bool) (digits : Nat) (exponent : Int) :
    (ofDecimal negative digits exponent).Bounded := by
  rw [ofDecimal]
  split
  · exact bounded_zero negative
  dsimp only
  split
  · trivial
  split
  · exact bounded_zero negative
  split
  · exact bounded_ofRatio _ _ _ (by decide)
  · exact bounded_ofRatio _ _ _ (Nat.pos_iff_ne_zero.mp (Nat.pow_pos (by decide)))

/-! ### Integers -/

theorem natAbs_signed (negative : Bool) (m : Nat) : (signed negative m).natAbs = m := by
  rw [signed]
  split <;> simp

/-- How many bits the integer of a number in range has at most. -/
def maxBits : Nat := 53 + 971

/-- The integer of a mantissa and an exponent with bounds. -/
theorem natAbs_truncate_finite_lt {negative : Bool} {m k bits : Nat} {q : Int} (hm : m < 2 ^ bits)
    (hq : q ≤ k) : (truncate (.finite negative m q)).natAbs < 2 ^ (bits + k) := by
  rw [truncate, natAbs_signed, Nat.pow_add]
  split
  · have hpow : 2 ^ q.toNat ≤ 2 ^ k := Nat.pow_le_pow_right (by decide) (by omega)
    rw [Nat.shiftLeft_eq]
    calc m * 2 ^ q.toNat
        ≤ m * 2 ^ k := Nat.mul_le_mul_left _ hpow
      _ < 2 ^ bits * 2 ^ k := (Nat.mul_lt_mul_right (Nat.two_pow_pos k)).mpr hm
  · rw [Nat.shiftRight_eq_div_pow]
    calc m / 2 ^ (-q).toNat
        ≤ m := Nat.div_le_self _ _
      _ < 2 ^ bits := hm
      _ ≤ 2 ^ bits * 2 ^ k := Nat.le_mul_of_pos_right _ (Nat.two_pow_pos k)

theorem natAbs_truncate_lt {x : Binary64} (h : x.InRange) : x.truncate.natAbs < 2 ^ maxBits := by
  have hpos : ∀ bits : Nat, 0 < 2 ^ bits := Nat.two_pow_pos
  cases x with
  | nan s => exact hpos maxBits
  | infinite s => exact hpos maxBits
  | finite s m q =>
    rw [maxBits]
    exact natAbs_truncate_finite_lt h.1 h.2

end ThemeSheet.Binary64

namespace ThemeSheet.Decimal

variable {n : Int} {bits k : Nat} {c : Char}

/-- The text of an integer is its digits, after a minus sign or alone. -/
theorem toList_toString_int (n : Int) :
    (toString n).toList = withSign (decide (n < 0)) (Nat.toDigits 10 n.natAbs) := by
  rw [Int.toString_eq_repr, Int.repr_eq_if]
  by_cases hn : n < 0
  · have habs : (-n).toNat = n.natAbs := by omega
    rw [if_neg (by omega), String.toList_append, Nat.toList_repr, habs, withSign,
      if_pos (decide_eq_true hn)]
    rfl
  · have habs : n.toNat = n.natAbs := by omega
    rw [if_pos (by omega), Nat.toList_repr, habs, withSign, if_neg (by simpa using hn)]

theorem mem_toString_int (h : c ∈ (toString n).toList) : c = '-' ∨ c.isDigit = true := by
  rw [toList_toString_int, withSign] at h
  split at h
  · exact (List.mem_cons.mp h).imp_right (Nat.isDigit_of_mem_toDigits (by decide) (by decide))
  · exact .inr (Nat.isDigit_of_mem_toDigits (by decide) (by decide) h)

theorem length_toString_int_le (hk : 0 < k) (h : n.natAbs < 10 ^ k) :
    (toString n).toList.length ≤ k + 1 := by
  have hlength := (Nat.length_toDigits_le_iff (b := 10) (by decide) hk).mpr h
  rw [toList_toString_int, withSign]
  split
  · rw [List.length_cons]
    omega
  · omega

/-- An integer has at most as many digits as bits. -/
theorem lt_ten_pow (h : n.natAbs < 2 ^ bits) : n.natAbs < 10 ^ bits :=
  Nat.lt_of_lt_of_le h (Nat.pow_le_pow_left (by decide) bits)

/-- An integer of few digits can be written. -/
theorem intText?_of_lt_ten_pow (h : n.natAbs < 10 ^ integerDigitLimit) :
    intText? n = some (toString n) := by
  have hlt : ∀ limit, n.natAbs < 10 ^ limit → n.natAbs < Nat.pow 10 limit := fun _ => id
  rw [intText?, if_pos (hlt _ h)]

/-- An integer of few bits can be written. -/
theorem intText?_of_lt (h : n.natAbs < 2 ^ bits) (hbits : bits ≤ integerDigitLimit) :
    intText? n = some (toString n) :=
  intText?_of_lt_ten_pow <|
    Nat.lt_of_lt_of_le (lt_ten_pow h) (Nat.pow_le_pow_right (by decide) hbits)

end ThemeSheet.Decimal
