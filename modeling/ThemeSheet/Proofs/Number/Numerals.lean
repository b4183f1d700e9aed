import ThemeSheet.Proofs.Number.Length

/-!
# The texts of numbers

However large or small a number is, its text is a numeral: digits, perhaps with a fraction and with
an exponent behind them, and with a sign in front of a negative one. Numbers without digits have
their words. So there is no blank in the text of a number, and nothing that means something in
markup.

## Main definitions

* `Decimal.IsNumeral`, of the texts of numbers.

## Main results

* `Decimal.isNumeral_textSix`: six significant digits;
* `Decimal.IsNumeral.isNumeralChar`: the characters of numerals.
-/

namespace ThemeSheet.Decimal

variable {cs ds es : List Char}

/-! ### Numerals -/

/-- Digits, one at least. -/
structure AreDigits (cs : List Char) : Prop where
  ne_nil : cs ≠ []
  digit : ∀ c ∈ cs, c.isDigit = true

/-- Digits, with a fraction behind them perhaps. -/
inductive IsPositional : List Char → Prop
  | whole {ds : List Char} (hds : AreDigits ds) : IsPositional ds
  | fraction {ds fs : List Char} (hds : AreDigits ds) (hfs : AreDigits fs) :
      IsPositional (ds ++ '.' :: fs)

/-- A numeral without a sign: digits with a fraction perhaps, and with an exponent perhaps. -/
inductive IsUnsigned : List Char → Prop
  | positional {cs : List Char} (h : IsPositional cs) : IsUnsigned cs
  | exponent {cs es : List Char} {sign : Char} (h : IsPositional cs)
      (hsign : sign = '+' ∨ sign = '-') (hes : AreDigits es) :
      IsUnsigned (cs ++ 'e' :: sign :: es)

/-- A numeral, or the word for a number without digits. -/
inductive IsNumeral : List Char → Prop
  | number {cs : List Char} (negative : Bool) (h : IsUnsigned cs) :
      IsNumeral (withSign negative cs)
  | infinite (negative : Bool) : IsNumeral (withSign negative ['i', 'n', 'f'])
  | nan : IsNumeral ['n', 'a', 'n']

/-- The characters of numerals. -/
def isNumeralChar (c : Char) : Bool :=
  c.isDigit || ['-', '+', '.', 'e', 'i', 'n', 'f', 'a'].contains c

theorem IsPositional.isNumeralChar (h : IsPositional cs) : ∀ c ∈ cs, isNumeralChar c = true := by
  have hdigits : ∀ {ds : List Char}, AreDigits ds → ∀ c ∈ ds, Decimal.isNumeralChar c = true :=
    fun hds c hc => by simp [Decimal.isNumeralChar, hds.digit c hc]
  cases h with
  | whole hds => exact hdigits hds
  | fraction hds hfs =>
    exact List.forall_mem_append.mpr
      ⟨hdigits hds, List.forall_mem_cons.mpr ⟨by decide, hdigits hfs⟩⟩

theorem IsUnsigned.isNumeralChar (h : IsUnsigned cs) : ∀ c ∈ cs, isNumeralChar c = true := by
  cases h with
  | positional h => exact h.isNumeralChar
  | exponent h hsign hes =>
    refine List.forall_mem_append.mpr ⟨h.isNumeralChar, List.forall_mem_cons.mpr ⟨by decide, ?_⟩⟩
    refine List.forall_mem_cons.mpr ⟨?_, (IsPositional.whole hes).isNumeralChar⟩
    rcases hsign with rfl | rfl <;> decide

/-- **The characters of a numeral** are digits, signs, points and letters. -/
theorem IsNumeral.isNumeralChar (h : IsNumeral cs) : ∀ c ∈ cs, isNumeralChar c = true := by
  have hsigned : ∀ (negative : Bool) {ds : List Char},
      (∀ c ∈ ds, Decimal.isNumeralChar c = true) →
        ∀ c ∈ withSign negative ds, Decimal.isNumeralChar c = true := by
    intro negative ds hds
    cases negative with
    | false => exact hds
    | true => exact List.forall_mem_cons.mpr ⟨by decide, hds⟩
  cases h with
  | number negative h => exact hsigned negative h.isNumeralChar
  | infinite negative => exact hsigned negative (List.all_eq_true.mp (by decide))
  | nan => exact List.all_eq_true.mp (by decide)

theorem IsPositional.ne_nil (h : IsPositional cs) : cs ≠ [] := by
  cases h with
  | whole hds => exact hds.ne_nil
  | fraction _ _ => simp

theorem IsNumeral.ne_nil (h : IsNumeral cs) : cs ≠ [] := by
  have hsigned : ∀ (negative : Bool) {ds : List Char}, ds ≠ [] → withSign negative ds ≠ [] := by
    intro negative ds hds
    cases negative with
    | false => exact hds
    | true => exact List.cons_ne_nil _ _
  cases h with
  | number negative h =>
    cases h with
    | positional h => exact hsigned negative h.ne_nil
    | exponent _ _ _ => exact hsigned negative (by simp)
  | infinite negative => exact hsigned negative (by simp)
  | nan => simp

/-! ### Digits -/

theorem areDigits_zero : AreDigits ['0'] := ⟨by simp, List.all_eq_true.mp (by decide)⟩

theorem areDigits_toDigits (n : Nat) : AreDigits (Nat.toDigits 10 n) where
  ne_nil := Nat.toDigits_ne_nil
  digit _ hc := Nat.isDigit_of_mem_toDigits (by decide) (by decide) hc

theorem AreDigits.of_subset (h : AreDigits cs) (hne : ds ≠ []) (hsubset : ds ⊆ cs) :
    AreDigits ds :=
  ⟨hne, fun c hc => h.digit c (hsubset hc)⟩

/-- Zeros may stand on both sides of digits. -/
theorem AreDigits.pad (h : AreDigits ds) (before after : Nat) :
    AreDigits (List.replicate before '0' ++ ds ++ List.replicate after '0') where
  ne_nil := by simp [h.ne_nil]
  digit c hc := by
    have hzero : ∀ n, c ∈ List.replicate n '0' → c.isDigit = true := fun n hc => by
      rw [List.eq_of_mem_replicate hc]
      decide
    rcases List.mem_append.mp hc with hc | hc
    · rcases List.mem_append.mp hc with hc | hc
      · exact hzero before hc
      · exact h.digit c hc
    · exact hzero after hc

theorem areDigits_exponentDigits (n : Nat) : AreDigits (exponentDigits n) := by
  rw [exponentDigits]
  split
  · simpa using (areDigits_toDigits n).pad 1 0
  · exact areDigits_toDigits n

theorem areDigits_significant (d : Digits) : AreDigits (significant d) := by
  rw [significant]
  split
  next => exact areDigits_zero
  next kept hkept =>
    refine (areDigits_toDigits d.coefficient).of_subset hkept fun c hc => ?_
    rw [dropTrailingZeros, List.mem_reverse] at hc
    exact List.mem_reverse.mp ((List.dropWhile_suffix _).subset hc)

/-! ### Layout -/

/-- **Digits are laid out as a numeral.** -/
theorem isUnsigned_place (style : Layout) (lead : Int) (h : AreDigits ds) :
    IsUnsigned (style.place lead ds) := by
  unfold Layout.place
  split
  · refine .positional ?_
    split
    · have hfraction := h.pad (-lead - 1).toNat 0
      rw [List.replicate_zero, List.append_nil] at hfraction
      exact .fraction areDigits_zero hfraction
    · dsimp only
      split
      · have hwhole := h.pad 0 (lead.toNat + 1 - ds.length)
        rw [List.replicate_zero, List.nil_append] at hwhole
        split
        · exact .fraction hwhole areDigits_zero
        · rw [List.append_nil]
          exact .whole hwhole
      next hlength =>
        have htake : ds.take (lead.toNat + 1) ≠ [] := by simp [h.ne_nil]
        have hdrop : ds.drop (lead.toNat + 1) ≠ [] := by simpa using hlength
        exact .fraction (h.of_subset htake (List.take_subset _ _))
          (h.of_subset hdrop (List.drop_subset _ _))
  · have hsign : (if lead < 0 then '-' else '+') = '+' ∨ (if lead < 0 then '-' else '+') = '-' := by
      split
      · exact .inr rfl
      · exact .inl rfl
    refine .exponent ?_ hsign (areDigits_exponentDigits lead.natAbs)
    split
    next => exact absurd rfl h.ne_nil
    next c => exact .whole h
    next c rest hrest =>
      have hfirst : AreDigits [c] := h.of_subset (by simp) (by simp)
      exact .fraction hfirst (h.of_subset hrest (List.subset_cons_self c rest))

theorem isUnsigned_zero (style : Layout) : IsUnsigned style.zero := by
  rw [Layout.zero]
  split
  · exact .positional (.fraction areDigits_zero areDigits_zero)
  · exact .positional (.whole areDigits_zero)

/-- **The text of a number by six significant digits** is a numeral. -/
theorem isNumeral_textSix (x : Binary64) : IsNumeral (textSix x).toList := by
  cases x with
  | nan s =>
    have htext : "nan".toList = ['n', 'a', 'n'] := by decide
    rw [textSix, htext]
    exact .nan
  | infinite s =>
    rw [textSix, String.toList_ofList]
    exact .infinite s
  | finite s m q =>
    rw [textSix, String.toList_ofList]
    refine .number s ?_
    split
    · exact isUnsigned_zero _
    · rw [Layout.write_eq]
      exact isUnsigned_place _ _ (areDigits_significant _)

end ThemeSheet.Decimal
