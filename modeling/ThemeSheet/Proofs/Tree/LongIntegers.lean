import ThemeSheet.Proofs.Tree.Spelled
import ThemeSheet.Slug.Basic

/-!
# Values without a spelling

Every value is spelled but one in which an integer stands, among its items or among its keys, that
has too many digits to be written. This holds of all values: of lists and mappings that are shared,
and of those inside themselves, whose spelling breaks off where they come again.

## Main definitions

* `Value.HasLongInteger`.

## Main results

* `Value.failsOnly_spelling`: why a value has no spelling;
* `Slug.ofValue_cases`: the slug of a value.
-/

namespace ThemeSheet

open Result (FailsOnly failsOnly_ok)

variable {allowed : Refusal → Prop}

/-- An integer stands in a value that has too many digits to be written. -/
def Value.HasLongInteger (v : Value) : Prop :=
  ∃ n : Int, 10 ^ Decimal.integerDigitLimit ≤ n.natAbs ∧
    ((Value.int n).OccursIn v ∨ (Key.int n).OccursIn v)

namespace Value

variable {v : Value} {vs : List Value} {es : Entries} {e : Key × Value} {mark : Option Mark}

theorem HasLongInteger.item (hv : v ∈ vs) (h : v.HasLongInteger) :
    (Value.list vs mark).HasLongInteger := by
  obtain ⟨n, hn, hocc | ⟨fs, m, hmem, hfs⟩⟩ := h
  · exact ⟨n, hn, .inl (.item hv hocc)⟩
  · exact ⟨n, hn, .inr ⟨fs, m, hmem, .item hv hfs⟩⟩

theorem HasLongInteger.entry (he : e ∈ es) (h : e.2.HasLongInteger) :
    (Value.map es mark).HasLongInteger := by
  obtain ⟨n, hn, hocc | ⟨fs, m, hmem, hfs⟩⟩ := h
  · exact ⟨n, hn, .inl (.entry he hocc)⟩
  · exact ⟨n, hn, .inr ⟨fs, m, hmem, .entry he hfs⟩⟩

theorem hasLongInteger_of_key {n : Int} (hn : 10 ^ Decimal.integerDigitLimit ≤ n.natAbs)
    (he : (Key.int n, v) ∈ es) : (Value.map es mark).HasLongInteger :=
  ⟨n, hn, .inr ⟨es, mark, List.mem_map_of_mem he, .self⟩⟩

/-! ### Spelling -/

theorem failsOnly_keySpelling {k : Key}
    (h : ∀ n : Int, k = .int n → 10 ^ Decimal.integerDigitLimit ≤ n.natAbs →
      allowed .integerTooLong) : FailsOnly allowed k.innerSpelling := by
  cases k with
  | int n =>
    show FailsOnly allowed (integerSpelling n)
    exact failsOnly_integerSpelling_of_long (h n rfl)
  | _ => exact failsOnly_ok _

mutual

theorem failsOnly_innerSpelling (around : List Mark) (v : Value)
    (h : v.HasLongInteger → allowed .integerTooLong) :
    FailsOnly allowed (v.innerSpelling around) := by
  match v with
  | .int n =>
    rw [Value.innerSpelling]
    exact failsOnly_integerSpelling_of_long fun hn => h ⟨n, hn, .inl .self⟩
  | .list vs mark =>
    rw [Value.innerSpelling]
    split
    · exact failsOnly_ok _
    · have hitems := failsOnly_itemSpellings (Mark.within mark around) vs
        fun v hv hlong => h (hlong.item hv)
      exact hitems.bind fun _ => failsOnly_ok _
  | .map es mark =>
    rw [Value.innerSpelling]
    split
    · exact failsOnly_ok _
    · have hentries := failsOnly_entrySpellings (Mark.within mark around) es
        (fun n v hn he => h (hasLongInteger_of_key hn he)) fun e he hlong => h (hlong.entry he)
      exact hentries.bind fun _ => failsOnly_ok _
  | .null | .bool _ | .float _ | .moment _ | .text _ => exact failsOnly_ok _

theorem failsOnly_itemSpellings (around : List Mark) (vs : List Value)
    (h : ∀ v ∈ vs, v.HasLongInteger → allowed .integerTooLong) :
    FailsOnly allowed (itemSpellings around vs) := by
  match vs with
  | [] => exact failsOnly_ok _
  | v :: vs =>
    obtain ⟨hv, hvs⟩ := List.forall_mem_cons.mp h
    exact (failsOnly_innerSpelling around v hv).bind fun _ =>
      (failsOnly_itemSpellings around vs hvs).bind fun _ => failsOnly_ok _

theorem failsOnly_entrySpellings (around : List Mark) (es : List (Key × Value))
    (hkey : ∀ (n : Int) (v : Value), 10 ^ Decimal.integerDigitLimit ≤ n.natAbs →
      (Key.int n, v) ∈ es → allowed .integerTooLong)
    (h : ∀ e ∈ es, e.2.HasLongInteger → allowed .integerTooLong) :
    FailsOnly allowed (entrySpellings around es) := by
  match es with
  | [] => exact failsOnly_ok _
  | (k, v) :: es =>
    obtain ⟨hv, hes⟩ := List.forall_mem_cons.mp h
    have hk : FailsOnly allowed k.innerSpelling := failsOnly_keySpelling fun n hn hlong =>
      hkey n v hlong (hn ▸ List.mem_cons_self)
    exact hk.bind fun _ => (failsOnly_innerSpelling around v hv).bind fun _ =>
      (failsOnly_entrySpellings around es
        (fun n v hn he => hkey n v hn (List.mem_cons_of_mem _ he)) hes).bind fun _ =>
          failsOnly_ok _

end

/-- **A value has a spelling** if no integer stands in it that is too long to be written. -/
theorem failsOnly_spelling (h : v.HasLongInteger → allowed .integerTooLong) :
    FailsOnly allowed v.spelling := by
  cases v with
  | text _ => exact failsOnly_ok _
  | moment _ => exact failsOnly_ok _
  | _ => exact failsOnly_innerSpelling [] _ h

/-- A value has a spelling, or an integer stands in it that is too long to be written. -/
theorem spelling_cases (v : Value) :
    (∃ s, v.spelling = .ok s) ∨ v.spelling = .error .integerTooLong ∧ v.HasLongInteger := by
  have hfails : FailsOnly (fun e => e = .integerTooLong ∧ v.HasLongInteger) v.spelling :=
    failsOnly_spelling fun hlong => ⟨rfl, hlong⟩
  rcases hfails.cases with hspelled | ⟨_, herror, rfl, hlong⟩
  · exact .inl hspelled
  · exact .inr ⟨herror, hlong⟩

end Value

/-- **The words and the slug of a value** are those of its spelling, if it has one. -/
theorem Slug.ofValue_cases (v : Value) :
    (∃ s, v.spelling = .ok s ∧ splitValue v = .ok ((split s.toList).map String.ofList) ∧
        ofValue v = .ok (ofString s)) ∨
      splitValue v = .error .integerTooLong ∧ ofValue v = .error .integerTooLong ∧
        v.HasLongInteger := by
  rw [splitValue, ofValue]
  rcases v.spelling_cases with ⟨s, hs⟩ | ⟨herror, hlong⟩
  · exact .inl ⟨s, hs, by rw [hs]; rfl, by rw [hs]; rfl⟩
  · exact .inr ⟨by rw [herror]; rfl, by rw [herror]; rfl, hlong⟩

end ThemeSheet
