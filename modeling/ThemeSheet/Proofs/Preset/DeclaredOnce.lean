import ThemeSheet.Proofs.Preset.Declarations
import ThemeSheet.Proofs.Preset.Flattening
import ThemeSheet.Theme.Stylesheet

/-!
# Custom properties that are declared once

The custom properties of a scope are declared in one rule: those of the presets, category by
category, and then those of the `custom` setting. No name is declared twice there. Within a category
the slugs differ, and so do the names that they are filled into; the categories have stems that keep
their names apart, whatever the slugs are; and the custom setting has a stem of its own, behind
which the names of the leaves differ.

## Main definitions

* `customStem`, the beginning of the names of the `custom` setting;
* `Declares`, of the names that settings declare.

## Main results

* `mem_names_variableDeclarations_iff`: what is declared;
* `nodup_names_presetDeclarations`, `nodup_names_customDeclarations`: either of the two parts;
* `declared_once`: the whole rule.
-/

namespace ThemeSheet

variable {settings : Value} {origins : List String} {category : Category} {ds : List Declaration}

/-! ### Presets -/

/-- The names that a category declares are those of the slugs with values. -/
theorem names_categoryDeclarations (h : categoryDeclarations settings origins category = .ok ds) :
    ∃ values, valuesBySlug settings category origins = .ok values ∧
      ds.map (·.name) = values.map fun e => fillSlug category.customProperty e.1 := by
  obtain ⟨values, hvalues, h⟩ := Result.exists_of_bind h
  refine ⟨values, hvalues, Result.map_eq_map h fun e _ d hd => ?_⟩
  obtain ⟨text, -, hd⟩ := Result.exists_of_bind hd
  cases hd
  rfl

/-- A category declares a custom property once. -/
theorem nodup_names_categoryDeclarations
    (h : categoryDeclarations settings origins category = .ok ds) : (ds.map (·.name)).Nodup := by
  obtain ⟨values, hvalues, hnames⟩ := names_categoryDeclarations h
  rw [hnames, List.Nodup, List.pairwise_map]
  exact (List.pairwise_map.mp (nodup_names_valuesBySlug hvalues)).imp fun hne heq =>
    hne (Category.customProperty_inj heq).2

/-- What a category declares is the custom property of a slug. -/
theorem exists_slug_of_mem {d : Declaration}
    (h : categoryDeclarations settings origins category = .ok ds) (hd : d ∈ ds) :
    ∃ slug, d.name = fillSlug category.customProperty slug := by
  obtain ⟨values, -, hnames⟩ := names_categoryDeclarations h
  have hname : d.name ∈ ds.map (·.name) := List.mem_map_of_mem hd
  rw [hnames] at hname
  obtain ⟨e, -, he⟩ := List.mem_map.mp hname
  exact ⟨e.1, he.symm⟩

/-- Different categories declare different custom properties. -/
theorem ne_of_mem_categoryDeclarations {other : Category} {ds' : List Declaration}
    (hne : category ≠ other) (h : categoryDeclarations settings origins category = .ok ds)
    (h' : categoryDeclarations settings origins other = .ok ds') :
    ∀ d ∈ ds, ∀ d' ∈ ds', d.name ≠ d'.name := by
  intro d hd d' hd' heq
  obtain ⟨slug, hslug⟩ := exists_slug_of_mem h hd
  obtain ⟨slug', hslug'⟩ := exists_slug_of_mem h' hd'
  rw [hslug, hslug'] at heq
  exact hne (Category.customProperty_inj heq).1

/-- **Presets declare a custom property once.** -/
theorem nodup_names_presetDeclarations (h : presetDeclarations settings origins = .ok ds) :
    (ds.map (·.name)).Nodup := by
  obtain ⟨groups, hgroups, h⟩ := Result.exists_of_bind h
  cases h
  have hcategories : Category.all.Pairwise (· ≠ ·) := by decide
  rw [List.Nodup, List.pairwise_map]
  refine List.pairwise_flatten.mpr ⟨fun group hgroup => ?_, ?_⟩
  · obtain ⟨category, -, hcategory⟩ := Result.exists_of_mem_mapM hgroups hgroup
    exact List.pairwise_map.mp (nodup_names_categoryDeclarations hcategory)
  · exact Result.pairwise_mapM hgroups (hcategories.imp fun hne _ _ =>
      ne_of_mem_categoryDeclarations hne)

/-! ### The custom setting -/

/-- What the names of all custom properties of the `custom` setting begin with. -/
def customStem : String := "--wp--custom--"

/-- The names that the `custom` setting declares are those of leaves of its flattened tree. -/
theorem names_customDeclarations (h : customDeclarations settings = .ok ds) :
    ∃ flat, flatten "" "--" (settings.getD ["custom"] .emptyMap) = .ok flat ∧
      ds.map (·.name) =
        (flat.filter fun leaf => !leaf.2.isNull).map fun leaf => customStem ++ leaf.1 := by
  obtain ⟨flat, hflat, h⟩ := Result.exists_of_bind h
  refine ⟨flat, hflat, Result.map_eq_map h fun leaf _ d hd => ?_⟩
  obtain ⟨text, -, hd⟩ := Result.exists_of_bind hd
  cases hd
  rfl

/-- **The custom setting declares a custom property once.** -/
theorem nodup_names_customDeclarations (h : customDeclarations settings = .ok ds) :
    (ds.map (·.name)).Nodup := by
  obtain ⟨flat, hflat, hnames⟩ := names_customDeclarations h
  rw [hnames, List.Nodup, List.pairwise_map]
  exact ((List.pairwise_map.mp (nodup_names_flatten hflat)).filter _).imp fun hne heq =>
    hne (String.append_right_inj customStem |>.mp heq)

/-- No custom property of a category is one of the custom setting. -/
theorem customProperty_ne_custom (category : Category) (slug name : String) :
    fillSlug category.customProperty slug ≠ customStem ++ name := by
  have hstem : ¬customStem.toList <+: category.stem.toList := by
    cases category <;> decide +kernel
  have hlength : customStem.toList.length ≤ category.stem.toList.length := by
    cases category <;> decide +kernel
  intro heq
  rw [Category.fillSlug_customProperty, ← String.toList_inj, String.toList_append,
    String.toList_append] at heq
  have hcustom := List.prefix_append customStem.toList name.toList
  rw [← heq] at hcustom
  exact hstem (List.prefix_of_prefix_length_le hcustom (List.prefix_append _ _) hlength)

/-! ### The whole rule -/

/-- The names that settings declare: the custom property of every slug of which some preset has a
value, and that of every leaf of the flattened `custom` setting that is not null. -/
inductive Declares (settings : Value) (origins : List String) : String → Prop
  | preset {category : Category} {preset : Entries} {slug : String}
      (hpreset : preset ∈ presetsOf settings category origins)
      (hslug : Slug.ofValue (rawSlug preset) = .ok slug) (hvalue : category.HasValue preset) :
      Declares settings origins (fillSlug category.customProperty slug)
  | custom {flat : List (String × Value)} {leaf : String × Value}
      (hflat : flatten "" "--" (settings.getD ["custom"] .emptyMap) = .ok flat)
      (hleaf : leaf ∈ flat) (hnull : leaf.2.isNull = false) :
      Declares settings origins (customStem ++ leaf.1)

theorem exists_of_variableDeclarations (h : Theme.variableDeclarations settings origins = .ok ds) :
    ∃ presets custom, presetDeclarations settings origins = .ok presets ∧
      customDeclarations settings = .ok custom ∧ ds = presets ++ custom := by
  obtain ⟨presets, hpresets, h⟩ := Result.exists_of_bind h
  obtain ⟨custom, hcustom, h⟩ := Result.exists_of_bind h
  cases h
  exact ⟨presets, custom, hpresets, hcustom, rfl⟩

/-- **What a scope declares.** -/
theorem mem_names_variableDeclarations_iff {name : String}
    (h : Theme.variableDeclarations settings origins = .ok ds) :
    name ∈ ds.map (·.name) ↔ Declares settings origins name := by
  obtain ⟨presets, custom, hpresets, hcustom, rfl⟩ := exists_of_variableDeclarations h
  obtain ⟨flat, hflat, hnames⟩ := names_customDeclarations hcustom
  rw [List.map_append, List.mem_append, mem_declared_iff hpresets, hnames]
  constructor
  · rintro (⟨category, preset, hpreset, slug, hslug, hvalue, rfl⟩ | hname)
    · exact .preset hpreset hslug hvalue
    · obtain ⟨leaf, hleaf, rfl⟩ := List.mem_map.mp hname
      obtain ⟨hleaf, hnull⟩ := List.mem_filter.mp hleaf
      exact .custom hflat hleaf (by simpa using hnull)
  · intro hname
    cases hname with
    | preset hpreset hslug hvalue => exact .inl ⟨_, _, hpreset, _, hslug, hvalue, rfl⟩
    | @custom other leaf hother hleaf hnull =>
      cases hflat.symm.trans hother
      exact .inr (List.mem_map.mpr ⟨leaf, List.mem_filter.mpr ⟨hleaf, by simpa using hnull⟩, rfl⟩)

/-- The declarations of a scope have distinct names. -/
theorem nodup_names_variableDeclarations
    (h : Theme.variableDeclarations settings origins = .ok ds) : (ds.map (·.name)).Nodup := by
  obtain ⟨presets, custom, hpresets, hcustom, rfl⟩ := exists_of_variableDeclarations h
  rw [List.map_append]
  refine List.nodup_append.mpr ⟨nodup_names_presetDeclarations hpresets,
    nodup_names_customDeclarations hcustom, fun name hname name' hname' heq => ?_⟩
  obtain ⟨d, hd, rfl⟩ := List.mem_map.mp hname
  obtain ⟨category, -, -, e, -, hd, -⟩ := exists_of_mem_presetDeclarations hpresets hd
  obtain ⟨flat, -, hnames⟩ := names_customDeclarations hcustom
  rw [hnames] at hname'
  obtain ⟨leaf, -, rfl⟩ := List.mem_map.mp hname'
  exact customProperty_ne_custom category e.1 leaf.1 (hd.symm.trans heq)

/-- A rule of the section of custom properties is that of a scope. -/
theorem exists_scope_of_mem_variablePieces {theme : Theme} {table : BlockTable}
    {pieces : List Piece} {rule : Rule} (h : theme.variablePieces table origins = .ok pieces)
    (hrule : Piece.rule rule ∈ pieces) : ∃ scope ∈ settingScopes table theme.tree,
      Theme.variableDeclarations (theme.partOf scope) origins = .ok rule.declarations := by
  obtain ⟨groups, hgroups, h⟩ := Result.exists_of_bind h
  cases h
  obtain ⟨group, hgroup, hrule⟩ := List.mem_flatten.mp hrule
  obtain ⟨scope, hmem, hscope⟩ := Result.exists_of_mem_mapM hgroups hgroup
  refine ⟨scope, hmem, ?_⟩
  rw [Theme.scopeVariables] at hscope
  split at hscope
  next =>
    cases hscope
    cases hrule
  next selector _ =>
    obtain ⟨ds, hds, hscope⟩ := Result.exists_of_bind hscope
    cases hscope
    cases List.mem_singleton.mp hrule
    exact hds

/-- **No custom property is declared twice in a rule.** What settings declare has distinct names,
which are those of the slugs with values and of the leaves; and every rule of the section consists
of what the settings of a scope declare. -/
theorem declared_once :
    (∀ settings origins ds, Theme.variableDeclarations settings origins = .ok ds →
      (ds.map (·.name)).Nodup ∧ ∀ name, name ∈ ds.map (·.name) ↔ Declares settings origins name) ∧
    ∀ (theme : Theme) (table : BlockTable) (origins : List String) (pieces : List Piece),
      theme.variablePieces table origins = .ok pieces → ∀ rule, Piece.rule rule ∈ pieces →
        (rule.declarations.map (·.name)).Nodup ∧ ∃ scope ∈ settingScopes table theme.tree,
          Theme.variableDeclarations (theme.partOf scope) origins = .ok rule.declarations := by
  refine ⟨fun _ _ _ h => ⟨nodup_names_variableDeclarations h, fun _ =>
    mem_names_variableDeclarations_iff h⟩, fun theme table origins pieces h rule hrule => ?_⟩
  obtain ⟨scope, hscope, hds⟩ := exists_scope_of_mem_variablePieces h hrule
  exact ⟨nodup_names_variableDeclarations hds, scope, hscope, hds⟩

/-- Two presets of a slug, a slug that is spelt like the stem of font sizes, and two leaves of one
name: each name is declared once. -/
theorem declared_once_of_repeated :
    let color := fun slug color : String =>
      Value.map [(.text "slug", .text slug), (.text "color", .text color)]
    let settings := Value.map [
      (.text "color", .map [(.text "palette", .map [
        (.text "default", .list [color "red" "#f00"]),
        (.text "theme", .list [color "Red" "#e00", color "" "#000"])])]),
      (.text "typography", .map [(.text "fontSizes", .map [(.text "theme", .list [
        .map [(.text "slug", .text "--wp--preset--color--red"), (.text "size", .text "1px")]])])]),
      (.text "custom", .map [
        (.text "line", .map [(.text "height", .text "1")]),
        (.text "Line", .map [(.text "height", .text "2"), (.text "none", .null)])])]
    let theme : Theme := ⟨.theme, .map [(.text "settings", settings)]⟩
    let ds : List Declaration := [⟨"--wp--preset--color--red", "#e00"⟩,
      ⟨"--wp--preset--color--", "#000"⟩,
      ⟨"--wp--preset--font-size--wp-preset-color-red", "1px"⟩,
      ⟨"--wp--custom--line--height", "2"⟩]
    Theme.variableDeclarations settings Origin.allNames = .ok ds ∧
      theme.variablePieces [] Origin.allNames = .ok [.rule ⟨rootSelector, ds⟩] ∧
      (ds.map (·.name)).Nodup ∧ ((Rule.mk rootSelector ds).declarations.map (·.name)).Nodup := by
  intro color settings theme ds
  have hds : Theme.variableDeclarations settings Origin.allNames = .ok ds := by decide +kernel
  have hpieces : theme.variablePieces [] Origin.allNames = .ok [.rule ⟨rootSelector, ds⟩] := by
    decide +kernel
  exact ⟨hds, hpieces, (declared_once.1 settings Origin.allNames ds hds).1,
    (declared_once.2 theme [] Origin.allNames _ hpieces ⟨rootSelector, ds⟩ List.mem_cons_self).1⟩

end ThemeSheet
