import ThemeSheet.Preset.Stylesheet
import ThemeSheet.Proofs.Preset.Templates
import ThemeSheet.Proofs.Preset.Values

/-!
# What presets declare

The custom properties of settings are made category by category from the values by slug. So a
declaration tells its category and its slug by its name, and a custom property is declared for every
slug of which some preset has a value.

## Main definitions

* `Category.HasValue`, of a preset with a value.

## Main results

* `exists_of_mem_presetDeclarations`: where a declaration comes from;
* `mem_declared_iff`: what is declared.
-/

namespace ThemeSheet

variable {settings : Value} {name slug : String} {origins : List String} {category : Category}
  {ds : List Declaration} {d : Declaration}

/-! ### Slugs with values -/

/-- Whether a preset has a value: one that is not null. -/
def Category.HasValue (category : Category) (preset : Entries) : Prop :=
  ∃ v, category.value preset = .ok v ∧ v.isNull = false

/-- The names by which a category has values are the slugs of its presets that have one. -/
theorem mem_names_valuesBySlug_iff {values : List (String × Value)}
    (h : valuesBySlug settings category origins = .ok values) :
    slug ∈ values.map (·.1) ↔ ∃ preset ∈ presetsOf settings category origins,
      Slug.ofValue (rawSlug preset) = .ok slug ∧ category.HasValue preset := by
  obtain ⟨found, hfound, h⟩ := Result.exists_of_bind h
  cases h
  rw [Named.mem_names_putAll, List.map_nil]
  constructor
  · rintro (hslug | hslug)
    · cases hslug
    obtain ⟨e, he, rfl⟩ := List.mem_map.mp hslug
    obtain ⟨o, ho, rfl⟩ := List.mem_filterMap.mp he
    obtain ⟨preset, hpreset, hboth⟩ := Result.exists_of_mem_mapM hfound ho
    obtain ⟨v, hv, hboth⟩ := Result.exists_of_bind hboth
    split at hboth
    · cases hboth
    next hnull =>
      obtain ⟨slug, hraw, hboth⟩ := Result.exists_of_bind hboth
      cases hboth
      exact ⟨preset, hpreset, hraw, v, hv, Bool.eq_false_iff.mpr hnull⟩
  · rintro ⟨preset, hpreset, hslug, v, hv, hnull⟩
    have hboth : slugAndValue? category preset = .ok (some (slug, v)) := by
      rw [slugAndValue?_of_value hv hnull, hslug]
      rfl
    have hmem := Result.mem_of_mapM hfound hpreset hboth
    exact .inr (List.mem_map.mpr ⟨(slug, v), List.mem_filterMap.mpr ⟨_, hmem, rfl⟩, rfl⟩)

/-! ### Declarations -/

/-- **Where a declaration comes from**: a value of a category by slug. -/
theorem exists_of_mem_presetDeclarations (h : presetDeclarations settings origins = .ok ds)
    (hd : d ∈ ds) : ∃ (category : Category) (values : List (String × Value)),
      valuesBySlug settings category origins = .ok values ∧ ∃ e ∈ values,
        d.name = fillSlug category.customProperty e.1 ∧ cssText e.2 = .ok d.value := by
  obtain ⟨groups, hgroups, h⟩ := Result.exists_of_bind h
  cases h
  obtain ⟨group, hgroup, hd⟩ := List.mem_flatten.mp hd
  obtain ⟨category, -, hcategory⟩ := Result.exists_of_mem_mapM hgroups hgroup
  obtain ⟨values, hvalues, hcategory⟩ := Result.exists_of_bind hcategory
  obtain ⟨e, he, hd⟩ := Result.exists_of_mem_mapM hcategory hd
  obtain ⟨text, htext, hd⟩ := Result.exists_of_bind hd
  cases hd
  exact ⟨category, values, hvalues, e, he, rfl, htext⟩

/-- **What is declared for presets**: the custom property of every slug of which some preset has a
value. -/
theorem mem_declared_iff (h : presetDeclarations settings origins = .ok ds) :
    name ∈ ds.map (·.name) ↔ ∃ category : Category,
      ∃ preset ∈ presetsOf settings category origins, ∃ slug,
        Slug.ofValue (rawSlug preset) = .ok slug ∧ category.HasValue preset ∧
          name = fillSlug category.customProperty slug := by
  rw [List.mem_map]
  constructor
  · rintro ⟨d, hd, rfl⟩
    obtain ⟨category, values, hvalues, e, he, hname, -⟩ := exists_of_mem_presetDeclarations h hd
    obtain ⟨preset, hpreset, hslug, hvalue⟩ :=
      (mem_names_valuesBySlug_iff hvalues).mp (List.mem_map_of_mem he)
    exact ⟨category, preset, hpreset, e.1, hslug, hvalue, hname⟩
  · rintro ⟨category, preset, hpreset, slug, hslug, hvalue, rfl⟩
    obtain ⟨groups, hgroups, h⟩ := Result.exists_of_bind h
    cases h
    obtain ⟨group, hgroup, hcategory⟩ := Result.exists_of_mapM hgroups category.mem_all
    obtain ⟨values, hvalues, hcategory⟩ := Result.exists_of_bind hcategory
    have hnames := (mem_names_valuesBySlug_iff hvalues).mpr ⟨preset, hpreset, hslug, hvalue⟩
    obtain ⟨e, he, rfl⟩ := List.mem_map.mp hnames
    obtain ⟨d, hd, hdeclared⟩ := Result.exists_of_mapM hcategory he
    obtain ⟨text, -, hdeclared⟩ := Result.exists_of_bind hdeclared
    cases hdeclared
    exact ⟨_, List.mem_flatten.mpr ⟨group, hgroup, hd⟩, rfl⟩

end ThemeSheet
