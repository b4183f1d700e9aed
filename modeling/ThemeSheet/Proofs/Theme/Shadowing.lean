import ThemeSheet.Proofs.Preset.Values
import ThemeSheet.Proofs.Theme.Filtering

/-!
# Default presets that are asked for

A preset has two slugs: the one that is written, which may be any value, and the one it is compiled
under, which is the written one in words joined by hyphens. Merging goes by the first: where the
default presets are asked for, it drops the theme presets whose written slugs the defaults have.
Compiling goes by the second, and there the last preset of a slug gives the value. So a theme preset
that has been kept can still come before a default preset, namely if it is written otherwise and
compiled under the same slug.

What is compiled under the slug of a default preset is the default value exactly if no preset that
was kept has another value under that slug. This is so where merging drops all that is compiled
under the slug.

## Main results

* `Theme.presetItems_getD`, `presetItems_mergeTrees_theme`: the lists of a place;
* `map_lookup_default_theme_iff`: when a default value stays;
* `Theme.merge_shown_default_iff`: both, for the themes of runs.
-/

namespace ThemeSheet

variable {settings : Value} {category : Category} {slug : String}

/-! ### Defaults and a theme -/

theorem itemsOf_default (settings : Value) (category : Category) :
    itemsOf settings category ["default"] = presetItems settings category .default := by
  have hordered : Origin.ordered ["default"] = [.default] := by decide
  rw [itemsOf, hordered, List.flatMap_singleton]

theorem itemsOf_default_theme (settings : Value) (category : Category) :
    itemsOf settings category ["default", "theme"] =
      presetItems settings category .default ++ presetItems settings category .theme := by
  have hordered : Origin.ordered ["default", "theme"] = [.default, .theme] := by decide
  rw [itemsOf, hordered, List.flatMap_cons, List.flatMap_singleton]

/-- The default presets that give a slug its value are some. -/
theorem exists_valuesOf_default {defaults : List (String × Value)} {value : Value}
    (hdefaults : valuesBySlug settings category ["default"] = .ok defaults)
    (hvalue : defaults.lookup slug = some value) :
    ∃ vs, valuesOf category (presetItems settings category .default) = .ok vs ∧
      lastValue? slug vs = some value := by
  have hlookup := map_lookup_valuesBySlug_eq settings category ["default"] slug
  rw [hdefaults, itemsOf_default] at hlookup
  cases hvs : valuesOf category (presetItems settings category .default) with
  | error e =>
    rw [hvs] at hlookup
    cases hlookup
  | ok vs =>
    rw [hvs] at hlookup
    have hlast : defaults.lookup slug = lastValue? slug vs := Except.ok.inj hlookup
    exact ⟨vs, rfl, hlast.symm.trans hvalue⟩

/-- **A default value stays** if and only if the last theme preset of its slug, should there be one,
has it too. -/
theorem map_lookup_default_theme_iff {defaults : List (String × Value)} {value : Value}
    (hdefaults : valuesBySlug settings category ["default"] = .ok defaults)
    (hvalue : defaults.lookup slug = some value) :
    (valuesBySlug settings category ["default", "theme"]).map (·.lookup slug) =
        .ok (some value) ↔
      ∃ themes, valuesOf category (presetItems settings category .theme) = .ok themes ∧
        ∀ other, lastValue? slug themes = some other → other = value := by
  obtain ⟨vs, hvs, hlast⟩ := exists_valuesOf_default hdefaults hvalue
  rw [map_lookup_valuesBySlug_eq, itemsOf_default_theme, valuesOf_append, hvs]
  cases valuesOf category (presetItems settings category .theme) with
  | error e =>
    constructor
    · intro h
      cases h
    · rintro ⟨themes, h, -⟩
      cases h
  | ok themes =>
    have hboth : lastValue? slug (vs ++ themes) = (lastValue? slug themes).or (some value) := by
      rw [lastValue?_append, hlast]
    constructor
    · intro h
      have hsome : lastValue? slug (vs ++ themes) = some value := Except.ok.inj h
      refine ⟨themes, rfl, fun other hother => ?_⟩
      rw [hboth, hother] at hsome
      exact Option.some.inj hsome
    · rintro ⟨_, heq, hsame⟩
      cases heq
      refine congrArg Except.ok (hboth.trans ?_)
      cases hother : lastValue? slug themes with
      | none => rfl
      | some other => rw [hsame other hother, Option.some_or]

namespace Theme

variable {blocks : List String} {base incoming tree value : Value} {place path : Path}
  {items : List Value}

/-! ### The lists of a place -/

/-- The items of an origin among the settings of a place. -/
theorem presetItems_getD (hplace : place ≠ []) (tree : Value) (category : Category)
    (origin : Origin) : presetItems (tree.getD place .emptyMap) category origin =
      ((tree.at? (place ++ category.path ++ [origin.name])).bind Value.items?).getD [] := by
  rw [presetItems, Value.at?_getD_emptyMap hplace (by simp), ← List.append_assoc]

/-- Where default presets are asked for, and there are some at a place, its theme presets have been
filtered by their slugs. -/
theorem presetItems_mergeTrees_theme (hb : IsCompiledTree blocks base)
    (hi : IsCompiledTree blocks incoming) (hplace : place ∈ settingPlaces incoming)
    (hov : category.override = .unless path)
    (hlist : incoming.at? (place ++ category.path ++ [Origin.theme.name]) = some (.list items))
    (hflag : (flagAt? (mergeTrees base incoming) place path).any Value.truthy = true)
    (hdefaults : defaultItems (mergeTrees base incoming) place category ≠ []) :
    presetItems ((mergeTrees base incoming).getD place .emptyMap) category .theme =
      freshItems (takenSlugs (mergeTrees base incoming) place category) items := by
  have hslugs : takenSlugs (mergeTrees base incoming) place category ≠ [] := by
    rw [takenSlugs, defaultSlugs_eq _ place]
    exact fun h => hdefaults (List.map_eq_nil_iff.mp (List.append_eq_nil_iff.mp h).2)
  rw [presetItems_getD (hi.settingPlace hplace).ne_nil,
    at?_mergeTrees_theme_list hb hi hplace hov hlist, if_pos hflag, withoutSlugs_list,
    if_neg hslugs]
  rfl

/-- If all presets of a slug are dropped by their written slugs, none of those that are kept has
that slug. -/
theorem lastValue?_freshItems {slugs : List Value} {themes : List (String × Value)}
    (hthemes : valuesOf category (freshItems slugs items) = .ok themes)
    (hdropped : ∀ item ∈ items, ∀ preset, asPreset? item = some preset →
      Slug.ofValue (rawSlug preset) = .ok slug → (rawSlug preset).isAmong slugs = true) :
    lastValue? slug themes = none := by
  refine Option.eq_none_iff_forall_ne_some.mpr fun other hother => ?_
  obtain ⟨item, hitem, preset, hpreset, hslug, -⟩ :=
    exists_of_mem_valuesOf hthemes (mem_of_lastValue? hother)
  obtain ⟨hmem, hfresh⟩ := List.mem_filter.mp hitem
  rw [entryNamed?_of_asPreset? hpreset, Option.any_some,
    hdropped item hmem preset hpreset hslug] at hfresh
  cases hfresh

/-! ### Runs -/

/-- **When a default preset that is asked for keeps its value.** Where the flag of a category is set
in the merged tree, what is compiled under the slug of a default preset is its value if and only if
the kept theme presets compile, and the last one of them with that slug, should there be one, has
the same value. This is so if they compile and all theme presets of that slug are dropped, because
their written slugs are among those of the defaults. -/
theorem merge_shown_default_iff {steps steps' : List Step} {theme incoming : Theme}
    (htheme : theme ∈ run blocks steps) (hincoming : incoming ∈ run blocks steps')
    (hplace : place ∈ settingPlaces incoming.tree) (hov : category.override = .unless path)
    (hlist : incoming.tree.at? (place ++ category.path ++ [Origin.theme.name]) =
      some (.list items))
    (hflag : (flagAt? (theme.merge incoming).tree place path).any Value.truthy = true)
    {defaults : List (String × Value)}
    (hdefaults : valuesBySlug ((theme.merge incoming).tree.getD place .emptyMap) category
      ["default"] = .ok defaults)
    (hvalue : defaults.lookup slug = some value) :
    let merged := (theme.merge incoming).tree
    let slugs := defaultSlugs merged ["settings"] category ++ defaultSlugs merged place category
    let stays := (valuesBySlug (merged.getD place .emptyMap) category ["default", "theme"]).map
      (·.lookup slug) = .ok (some value)
    (stays ↔ ∃ themes, valuesOf category (freshItems slugs items) = .ok themes ∧
      ∀ other, lastValue? slug themes = some other → other = value) ∧
    ((∃ themes, valuesOf category (freshItems slugs items) = .ok themes) →
      (∀ item ∈ items, ∀ preset, asPreset? item = some preset →
        Slug.ofValue (rawSlug preset) = .ok slug → (rawSlug preset).isAmong slugs = true) →
      stays) := by
  intro merged slugs stays
  have hb := isCompiledTree_of_mem_run htheme
  have hi := isCompiledTree_of_mem_run hincoming
  -- A default preset gives the slug its value, so there are some at the place.
  have hsome : defaultItems merged place category ≠ [] := by
    intro hnil
    obtain ⟨vs, hvs, hlast⟩ := exists_valuesOf_default hdefaults hvalue
    have hempty : presetItems (merged.getD place .emptyMap) category .default = [] := by
      rw [presetItems_getD (hi.settingPlace hplace).ne_nil]
      exact hnil
    rw [hempty] at hvs
    cases hvs
    cases hlast
  have hthemes : presetItems (merged.getD place .emptyMap) category .theme =
      freshItems slugs items :=
    presetItems_mergeTrees_theme hb hi hplace hov hlist hflag hsome
  have hiff := map_lookup_default_theme_iff hdefaults hvalue
  rw [hthemes] at hiff
  refine ⟨hiff, fun ⟨themes, hvalues⟩ hdropped =>
    hiff.mpr ⟨themes, hvalues, fun other hother => ?_⟩⟩
  rw [lastValue?_freshItems hvalues hdropped] at hother
  cases hother

/-- The theme's red is dropped, because it is written as the default one is, and its blue stays. -/
theorem merge_shown_default_iff_red :
    let preset := fun slug color =>
      Value.map [(.text "slug", .text slug), (.text "color", .text color)]
    let raw := fun colors => Value.map [(.text "settings", .map [(.text "color", .map colors)])]
    let shown : Tree := ⟨raw [(.text "palette", .list [preset "red" "#f00"]),
      (.text "defaultPalette", .bool true)], by decide⟩
    let other : Tree := ⟨raw [(.text "palette", .list [preset "red" "#e00",
      preset "blue" "#00f"])], by decide⟩
    let merged := ((construct [] "default" shown).merge (construct [] "theme" other)).tree
    (valuesBySlug (merged.getD ["settings"] .emptyMap) .palette ["default", "theme"]).map
      (·.lookup "red") = .ok (some (.text "#f00")) := by
  intro preset raw shown other merged
  have hshown : construct [] "default" shown ∈ run [] [.construct "default" shown] :=
    List.mem_singleton_self _
  have hother : construct [] "theme" other ∈ run [] [.construct "theme" other] :=
    List.mem_singleton_self _
  have hplace : ["settings"] ∈ settingPlaces (construct [] "theme" other).tree := by
    decide +kernel
  have hdefaults : valuesBySlug (merged.getD ["settings"] .emptyMap) .palette ["default"] =
      .ok [("red", .text "#f00")] := by decide +kernel
  have hov : Category.palette.override = .unless ["color", "defaultPalette"] := rfl
  have hflag : (flagAt? merged ["settings"] ["color", "defaultPalette"]).any Value.truthy =
      true := by decide +kernel
  refine (merge_shown_default_iff hshown hother hplace hov rfl hflag hdefaults rfl).1.mpr
    ⟨[("blue", .text "#00f")], by decide +kernel, fun other hother => ?_⟩
  cases hother

/-- A theme preset that is written otherwise than the default one, but has its slug, is kept and
takes its place, although the default presets are asked for. -/
theorem merge_shown_default_shadowed :
    let preset := fun slug color =>
      Value.map [(.text "slug", .text slug), (.text "color", .text color)]
    let raw := fun colors => Value.map [(.text "settings", .map [(.text "color", .map colors)])]
    let shown : Tree := ⟨raw [(.text "palette", .list [preset "red" "#f00"]),
      (.text "defaultPalette", .bool true)], by decide⟩
    let other : Tree := ⟨raw [(.text "palette", .list [preset "Red" "#e00"])], by decide⟩
    let incoming := (construct [] "theme" other).tree
    let merged := ((construct [] "default" shown).merge (construct [] "theme" other)).tree
    let values := valuesBySlug (merged.getD ["settings"] .emptyMap) .palette
    ["settings"] ∈ settingPlaces incoming ∧
      incoming.at? ["settings", "color", "palette", "theme"] =
        some (.list [preset "Red" "#e00"]) ∧
      flagAt? merged ["settings"] ["color", "defaultPalette"] = some (.bool true) ∧
      (values ["default"]).map (·.lookup "red") = .ok (some (.text "#f00")) ∧
      (values ["default", "theme"]).map (·.lookup "red") = .ok (some (.text "#e00")) := by
  decide +kernel

end Theme

end ThemeSheet
