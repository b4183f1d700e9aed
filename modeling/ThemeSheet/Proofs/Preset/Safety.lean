import ThemeSheet.Proofs.Preset.Values
import ThemeSheet.Proofs.Results
import ThemeSheet.Theme.Cleaning

/-!
# Values of safe presets

A safe preset has a slug that can be written, so what it stands for is found; and its value has
passed the check for every property that its category is meant for. So if all the items of the lists
of a category are safe, there are values by slug, and all of them have passed.

## Main results

* `exists_valuesBySlug`.
-/

namespace ThemeSheet

open Theme (isSafeItem)

variable {check : SafetyCheck} {category : Category} {preset : Entries} {mark : Option Mark}
  {v : Value}

/-! ### One preset -/

/-- What passes for all of some properties passes for each. -/
theorem passesAll_eq_true {properties : List String} (h : passesAll check v properties = .ok true) :
    ∀ property ∈ properties, check property v = .ok true := by
  induction properties with
  | nil => simp
  | cons first properties ih =>
    obtain ⟨passed, hpassed, h⟩ := Result.exists_of_bind h
    cases passed with
    | false => cases h
    | true => exact List.forall_mem_cons.mpr ⟨hpassed, ih h⟩

/-- A safe preset has a value that passes for all properties of its category, and a slug. -/
theorem exists_value_of_isSafeItem (h : isSafeItem check category (.map preset mark) = .ok true) :
    ∃ value slug, category.value preset = .ok value ∧ Slug.ofValue (rawSlug preset) = .ok slug ∧
      ∀ property ∈ category.targets, check property value = .ok true := by
  obtain ⟨value, hvalue, h⟩ := Result.exists_of_bind h
  rw [isSafePreset] at h
  split at h
  next hnames =>
    rw [Bool.and_eq_true] at hnames
    refine ⟨value, ?_⟩
    change _ ∧ isSafeClassName (rawSlug preset) = true at hnames
    cases hslug : rawSlug preset with
    | text s => exact ⟨_, hvalue, rfl, passesAll_eq_true h⟩
    | _ => rw [hslug] at hnames; cases hnames.2
  next => cases h

/-- The slug and the value of a safe preset are found, and the value passes. -/
theorem exists_slugAndValue? (h : isSafeItem check category (.map preset mark) = .ok true) :
    ∃ o, slugAndValue? category preset = .ok o ∧
      ∀ e, o = some e → ∀ property ∈ category.targets, check property e.2 = .ok true := by
  obtain ⟨value, slug, hvalue, hslug, hpass⟩ := exists_value_of_isSafeItem h
  rw [slugAndValue?, hvalue]
  by_cases hnull : value.isNull = true
  · refine ⟨none, ?_, by simp⟩
    show (if value.isNull = true then _ else _) = _
    rw [if_pos hnull]
    rfl
  · refine ⟨some (slug, value), ?_, ?_⟩
    · show (if value.isNull = true then _ else _) = _
      rw [if_neg hnull, hslug]
      rfl
    · rintro e he
      cases he
      exact hpass

/-! ### All presets -/

theorem exists_map_of_asPreset? (h : asPreset? v = some preset) :
    ∃ mark, v = .map preset mark := by
  unfold asPreset? at h
  split at h
  next es mark =>
    split at h
    · cases h
    · cases h
    · cases h
      exact ⟨mark, rfl⟩
  next => cases h

/-- The values of a list of safe items. -/
theorem exists_valuesOf {items : List Value}
    (h : ∀ item ∈ items, isSafeItem check category item = .ok true) :
    ∃ vs, valuesOf category items = .ok vs ∧
      ∀ e ∈ vs, ∀ property ∈ category.targets, check property e.2 = .ok true := by
  have hone : ∀ preset ∈ items.filterMap asPreset?, ∃ o, slugAndValue? category preset = .ok o ∧
      ∀ e, o = some e → ∀ property ∈ category.targets, check property e.2 = .ok true := by
    intro preset hpreset
    obtain ⟨item, hitem, hsome⟩ := List.mem_filterMap.mp hpreset
    obtain ⟨mark, rfl⟩ := exists_map_of_asPreset? hsome
    exact exists_slugAndValue? (h _ hitem)
  obtain ⟨found, hfound⟩ := Result.exists_mapM fun preset hpreset =>
    (hone preset hpreset).imp fun _ => And.left
  refine ⟨found.filterMap id, ?_, fun e he => ?_⟩
  · rw [valuesOf, hfound]
    rfl
  · obtain ⟨o, ho, hoe⟩ := List.mem_filterMap.mp he
    obtain ⟨preset, hpreset, hvalue⟩ := Result.exists_of_mem_mapM hfound ho
    obtain ⟨o', ho', hpass⟩ := hone preset hpreset
    rw [hvalue] at ho'
    cases ho'
    exact hpass e hoe

/-- **The values of safe presets by slug** are found, and all of them pass. -/
theorem exists_valuesBySlug {settings : Value} {origins : List String}
    (h : ∀ item ∈ itemsOf settings category origins, isSafeItem check category item = .ok true) :
    ∃ vs, valuesBySlug settings category origins = .ok vs ∧
      ∀ e ∈ vs, ∀ property ∈ category.targets, check property e.2 = .ok true := by
  obtain ⟨vs, hvs, hpass⟩ := exists_valuesOf h
  refine ⟨Named.putAll [] vs, ?_, fun e he => ?_⟩
  · rw [valuesBySlug_eq, hvs]
    rfl
  · exact hpass e (Named.mem_of_mem_putAll he)

end ThemeSheet
