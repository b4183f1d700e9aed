import ThemeSheet.Proofs.Preset.Values
import ThemeSheet.Proofs.Theme.TakeOver
import ThemeSheet.Proofs.Tree.Decidable

/-!
# Precedence of the three origins

The defaults, a theme and the user's settings are compiled each by itself, and then the theme is
merged into the defaults and the user's settings into the result. Where they have bare lists of
presets, the merged tree has, at every place and for every category, the lists side by side under
the names of their origins: that of the defaults and that of the user as they were given, and that
of the theme as the defaults have left it. So the value of a slug is the user's if the user has one,
else the theme's, else the default one.

## Main definitions

* `Theme.HasBareLists`, of raw trees whose collections are lists;
* `Origin.collect`, the mapping from the origins to what they have.

## Main results

* `Theme.at?_mergeTrees_default_theme`: the defaults with a theme;
* `Theme.merge_default_theme_custom`: all three of them.
-/

namespace ThemeSheet

open Value (joined walk?)

/-! ### Mappings from origins -/

namespace Origin

/-- The mapping from the origins to what is given for them, in the order of precedence. There is
none if nothing is given. -/
def collect (content : Origin → Option Value) : Option Value :=
  match all.filterMap fun origin => (content origin).map fun v => (Key.text origin.name, v) with
  | [] => none
  | e :: es => some (.map (e :: es))

/-- What is given for an origin is found under its name. -/
theorem walk?_collect (content : Origin → Option Value) (origin : Origin) :
    (collect content).bind (walk? [origin.name]) = content origin := by
  rw [collect, all]
  cases hd : content .default <;> cases ht : content .theme <;> cases hc : content .custom <;>
    cases origin <;> simp [hd, ht, hc, Entries.named?, name]

/-- Where one origin has something, a mapping from origins is one from its name. -/
theorem collect_single (origin : Origin) (o : Option Value) :
    collect (fun other => if other = origin then o else none) =
      o.map fun v => .map [(.text origin.name, v)] := by
  rw [collect, all]
  cases o <;> cases origin <;> simp

end Origin

namespace Theme

/-- Whatever stands where a collection does is a list without a key. -/
def HasBareLists (blocks : List String) (raw : Value) : Prop :=
  ∀ place category v, SettingPlace blocks place →
    raw.at? (place ++ Category.path category) = some v → ∃ items, v = .list items

variable {blocks : List String} {place : Path} {category : Category} {raw : Value}

/-! ### Bare lists -/

/-- A bare list becomes a mapping from the name of the origin to it. -/
theorem at?_compileTree_of_bare (h : raw.IsTree) (hbare : HasBareLists blocks raw)
    (hplace : SettingPlace blocks place) (category : Category) (origin : Origin) :
    (compileTree blocks origin raw).at? (place ++ category.path) =
      (raw.at? (place ++ category.path)).map fun v => .map [(.text origin.name, v)] := by
  rw [at?_compileTree_collection h hplace]
  cases hv : raw.at? (place ++ category.path) with
  | none => rfl
  | some v =>
    obtain ⟨items, rfl⟩ := hbare place category v hplace hv
    rfl

/-- Only the origin itself has the list. -/
theorem solid?_compileTree_of_bare (h : raw.IsTree) (hbare : HasBareLists blocks raw)
    (hplace : SettingPlace blocks place) (category : Category) (origin other : Origin) :
    (compileTree blocks origin raw).solid? (place ++ category.path ++ [other.name]) =
      if other = origin then raw.at? (place ++ category.path) else none := by
  have hne : place ++ category.path ≠ [] := by simp [hplace.ne_nil]
  rw [Value.solid?_eq, Value.at?_append hne, at?_compileTree_of_bare h hbare hplace]
  cases hv : raw.at? (place ++ category.path) with
  | none => simp
  | some v =>
    obtain ⟨items, rfl⟩ := hbare place category v hplace hv
    cases origin <;> cases other <;> rfl

/-- **A tree with bare lists merged into a compiled tree.** -/
theorem at?_mergeTrees_of_bare {es : Entries} (he : IsCompiled blocks es) (h : raw.IsTree)
    (hbare : HasBareLists blocks raw) (hplace : SettingPlace blocks place) (category : Category)
    (origin : Origin) :
    (mergeTrees (.map es) (compileTree blocks origin raw)).at? (place ++ category.path) =
      takenInto ((Value.map es).overlaid (compileTree blocks origin raw)) place category origin
        (joined ((Value.map es).at? (place ++ category.path))
          ((raw.at? (place ++ category.path)).map fun v => .map [(.text origin.name, v)]))
        (raw.at? (place ++ category.path)) := by
  have hne : place ++ category.path ≠ [] := by simp [hplace.ne_nil]
  have hsolid := solid?_compileTree_of_bare h hbare hplace category origin
  have hat := at?_compileTree_of_bare h hbare hplace category origin
  obtain ⟨fs, hfs, hcompiled⟩ := isCompiled_compileTree blocks h origin
  rw [hfs] at hsolid hat ⊢
  rw [at?_mergeTrees hcompiled.fits hplace fun other hne => by rw [hsolid, if_neg hne],
    hsolid, if_pos rfl, Value.overlaid, Value.overlayValue_map_map, Value.at?_of_ne_nil hne,
    walk?_overlay he.fits hcompiled.fits
      (Schema.staysInside_collection hplace elementNames category),
    ← Value.at?_of_ne_nil hne, ← Value.at?_of_ne_nil hne, hat]

/-- A list taken over into a mapping from origins in which no later origin has one stands beside
what is there. -/
theorem takenInto_collect {content : Origin → Option Value} {tree : Value} {origin : Origin}
    (hne : origin ≠ .default) (hown : content origin = none) (hcustom : content .custom = none)
    (o : Option Value) :
    takenInto tree place category origin
        (joined (Origin.collect content) (o.map fun v => .map [(.text origin.name, v)])) o =
      Origin.collect fun other => if other = origin then
        o.map (mergedCollection tree place (takenSlugs tree place category) category origin)
        else content other := by
  cases o with
  | none =>
    have hsame : (fun other => if other = origin then none else content other) = content := by
      funext other
      split
      next heq => rw [heq, hown]
      next => rfl
    simp only [Option.map_none, hsame]
    rfl
  | some v =>
    unfold takenInto Origin.collect Origin.all
    cases origin with
    | default => exact absurd rfl hne
    | theme =>
      cases hd : content .default <;>
        simp [hd, hown, hcustom, overlay_cons, Entries.insert, Value.orEmptyMap, Value.onMap,
          Origin.name]
    | custom =>
      cases hd : content .default <;> cases ht : content .theme <;>
        simp [hd, ht, hown, overlay_cons, Entries.insert, Value.orEmptyMap, Value.onMap,
          Origin.name]

/-! ### Two and three origins -/

section Precedence

variable {defaults theme custom : Value}

/-- What the defaults, a theme and the user's settings have at a collection: the lists of the
defaults and of the user, and that of the theme as the defaults leave it. Its font sizes have taken
names (`withDefaultNames_list_iff`), and its other presets have been filtered (`withoutSlugs`). -/
def collectionOf (blocks : List String) (defaults theme custom : Value) (place : Path)
    (category : Category) : Origin → Option Value
  | .default => defaults.at? (place ++ category.path)
  | .theme =>
    let both := (compileTree blocks .default defaults).overlaid (compileTree blocks .theme theme)
    (theme.at? (place ++ category.path)).map
      (mergedCollection both place (takenSlugs both place category) category .theme)
  | .custom => custom.at? (place ++ category.path)

/-- **The defaults with a theme.** -/
theorem at?_mergeTrees_default_theme (hd : defaults.IsTree) (ht : theme.IsTree)
    (hdbare : HasBareLists blocks defaults) (htbare : HasBareLists blocks theme)
    (hplace : SettingPlace blocks place) (category : Category) :
    (mergeTrees (compileTree blocks .default defaults) (compileTree blocks .theme theme)).at?
        (place ++ category.path) =
      Origin.collect (collectionOf blocks defaults theme .emptyMap place category) := by
  have hbase := at?_compileTree_of_bare hd hdbare hplace category .default
  obtain ⟨ds, hds, hcompiled⟩ := isCompiled_compileTree blocks hd .default
  have hempty : Value.emptyMap.at? (place ++ category.path) = none := by cases hplace <;> rfl
  have hstart : (Value.map ds).at? (place ++ category.path) = Origin.collect fun other =>
      if other = .default then defaults.at? (place ++ category.path) else none := by
    rw [Origin.collect_single, ← hds, hbase]
  rw [hds, at?_mergeTrees_of_bare hcompiled ht htbare hplace, hstart,
    takenInto_collect (by decide) rfl rfl, ← hds]
  congr 1
  funext other
  cases other with
  | default => rfl
  | theme => rfl
  | custom => exact hempty.symm

/-- **The defaults with a theme and the user's settings.** -/
theorem at?_mergeTrees_default_theme_custom (hd : defaults.IsTree) (ht : theme.IsTree)
    (hc : custom.IsTree) (hdbare : HasBareLists blocks defaults)
    (htbare : HasBareLists blocks theme) (hcbare : HasBareLists blocks custom)
    (hplace : SettingPlace blocks place) (category : Category) :
    (mergeTrees (mergeTrees (compileTree blocks .default defaults)
        (compileTree blocks .theme theme)) (compileTree blocks .custom custom)).at?
          (place ++ category.path) =
      Origin.collect (collectionOf blocks defaults theme custom place category) := by
  have hfirst := at?_mergeTrees_default_theme hd ht hdbare htbare hplace category
  obtain ⟨ds, hds, hdcompiled⟩ := isCompiled_compileTree blocks hd .default
  obtain ⟨ts, hts, htcompiled⟩ := isCompiled_compileTree blocks ht .theme
  obtain ⟨ms, hms, hmcompiled⟩ := hdcompiled.mergeTrees htcompiled
  have hempty : Value.emptyMap.at? (place ++ category.path) = none := by cases hplace <;> rfl
  rw [← hds, ← hts] at hms
  rw [hms] at hfirst ⊢
  rw [at?_mergeTrees_of_bare hmcompiled hc hcbare hplace, hfirst,
    takenInto_collect (by decide) hempty hempty]
  congr 1
  funext other
  cases other with
  | default => rfl
  | theme => rfl
  | custom =>
    show (custom.at? (place ++ category.path)).map _ = custom.at? (place ++ category.path)
    cases custom.at? (place ++ category.path) <;> rfl

/-- Merging the defaults into an empty theme gives the defaults. -/
theorem merge_empty (hd : defaults.IsTree) (hdbare : HasBareLists blocks defaults) :
    (compile blocks .default .emptyMap).merge (compile blocks .default defaults) =
      compile blocks .default defaults := by
  obtain ⟨ds, hds, hcompiled⟩ := isCompiled_compileTree blocks hd .default
  have hempty : compileTree blocks .default .emptyMap = .map [] := rfl
  have hoverlaid : (Value.map []).overlaid (.map ds) = .map ds := by
    rw [Value.overlaid, Value.overlayValue_map_map, overlay_empty hcompiled.fits.distinct]
  -- Everything that is taken over is there already.
  have hmerged : mergeTrees (.map []) (.map ds) = .map ds := by
    refine mergeTrees_induction (motive := fun tree => tree = Value.map ds) hoverlaid ?_ ?_
    · rintro _ place - units hunits rfl
      exact Value.set_of_at? (Value.solid?_eq_some_iff.mp hunits).1
    · rintro _ place hplace category origin slugs content hcontent rfl
      have hplace := ((mem_scopePaths_iff hcompiled.fits []).mp hplace).1
      have hsolid := solid?_compileTree_of_bare hd hdbare hplace category .default origin
      rw [hds, hcontent] at hsolid
      split at hsolid
      next heq =>
        subst heq
        exact Value.set_of_at? (Value.solid?_eq_some_iff.mp hcontent).1
      next => cases hsolid
  show (⟨.default, mergeTrees (compileTree blocks .default .emptyMap)
    (compileTree blocks .default defaults)⟩ : Theme) =
      ⟨.default, compileTree blocks .default defaults⟩
  rw [hempty, hds, hmerged]

/-- **Precedence of the three origins.** Of the defaults, a theme and the user's settings with bare
lists, merged one after the other into an empty theme, every collection is the mapping from the
origins to their lists. Merging the user's settings leaves the lists of the others as they are, and
the value of a slug is asked of the user, of the theme and of the defaults, in this order. -/
theorem merge_default_theme_custom (hd : defaults.IsTree) (ht : theme.IsTree) (hc : custom.IsTree)
    (hdbare : HasBareLists blocks defaults) (htbare : HasBareLists blocks theme)
    (hcbare : HasBareLists blocks custom) (hplace : SettingPlace blocks place)
    (category : Category) :
    let listOf := collectionOf blocks defaults theme custom place category
    let items := fun origin => ((listOf origin).bind Value.items?).getD []
    let first := (compile blocks .default defaults).merge (compile blocks .theme theme)
    let merged := first.merge (compile blocks .custom custom)
    merged = (((compile blocks .default .emptyMap).merge (compile blocks .default defaults)).merge
        (compile blocks .theme theme)).merge (compile blocks .custom custom) ∧
      merged.tree.at? (place ++ category.path) = Origin.collect listOf ∧
      (∀ origin : Origin, origin ≠ .custom →
        merged.tree.at? (place ++ category.path ++ [origin.name]) =
          first.tree.at? (place ++ category.path ++ [origin.name])) ∧
      ∀ slug, (valuesBySlug (merged.tree.getD place .emptyMap) category Origin.allNames).map
          (·.lookup slug) = do
        let defaults ← valuesOf category (items .default)
        let themes ← valuesOf category (items .theme)
        let customs ← valuesOf category (items .custom)
        return (lastValue? slug customs).or
          ((lastValue? slug themes).or (lastValue? slug defaults)) := by
  intro listOf items first merged
  have hne : place ++ category.path ≠ [] := by simp [hplace.ne_nil]
  have hmerged : merged.tree.at? (place ++ category.path) = Origin.collect listOf :=
    at?_mergeTrees_default_theme_custom hd ht hc hdbare htbare hcbare hplace category
  have hfirst : first.tree.at? (place ++ category.path) = Origin.collect _ :=
    at?_mergeTrees_default_theme hd ht hdbare htbare hplace category
  have hlist : ∀ origin : Origin,
      merged.tree.at? (place ++ category.path ++ [origin.name]) = listOf origin := by
    intro origin
    rw [Value.at?_append hne, hmerged, Origin.walk?_collect]
  have hitems : ∀ origin, presetItems (merged.tree.getD place .emptyMap) category origin =
      items origin := by
    intro origin
    rw [presetItems, Value.at?_getD_emptyMap hplace.ne_nil (by simp), ← List.append_assoc, hlist]
  refine ⟨?_, hmerged, fun origin horigin => ?_, fun slug => ?_⟩
  · rw [merge_empty hd hdbare]
  · rw [hlist, Value.at?_append hne, hfirst, Origin.walk?_collect]
    cases origin with
    | custom => exact absurd rfl horigin
    | _ => rfl
  · rw [map_lookup_valuesBySlug, hitems, hitems, hitems]

/-- The default red stays beside the user's, and keeps the theme from having one. -/
theorem merge_default_theme_custom_palette :
    let preset := fun slug color =>
      Value.map [(.text "slug", .text slug), (.text "color", .text color)]
    let raw := fun colors => Value.map [(.text "settings", .map [(.text "color", .map colors)])]
    let defaults := raw [(.text "palette", .list [preset "red" "#f00"]),
      (.text "defaultPalette", .bool true)]
    let theme := raw [(.text "palette", .list [preset "red" "#e00", preset "blue" "#00f"])]
    let custom := raw [(.text "palette", .list [preset "red" "#d00"])]
    (((compile [] .default defaults).merge (compile [] .theme theme)).merge
        (compile [] .custom custom)).tree.at? ["settings", "color", "palette"] =
      some (.map [(.text "default", .list [preset "red" "#f00"]),
        (.text "theme", .list [preset "blue" "#00f"]),
        (.text "custom", .list [preset "red" "#d00"])]) := by
  intro preset raw defaults theme custom
  have htrees : defaults.IsTree ∧ theme.IsTree ∧ custom.IsTree := by decide
  have hbare : ∀ raw ∈ [defaults, theme, custom], HasBareLists [] raw := by
    intro raw hraw place category v hplace hv
    simp only [List.mem_cons, List.not_mem_nil, or_false] at hraw
    cases hplace with
    | root => rcases hraw with rfl | rfl | rfl <;> cases category <;> cases hv <;> exact ⟨_, rfl⟩
    | block hmem => cases hmem
  have h := merge_default_theme_custom htrees.1 htrees.2.1 htrees.2.2 (hbare _ (by simp))
    (hbare _ (by simp)) (hbare _ (by simp)) .root .palette
  exact h.2.1.trans (by decide +kernel)

end Precedence

end Theme

end ThemeSheet
