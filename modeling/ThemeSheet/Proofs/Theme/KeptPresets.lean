import ThemeSheet.Proofs.Preset.Naming
import ThemeSheet.Proofs.Theme.KeptStyles

/-!
# The presets that cleaning keeps

The leaves of cleaned settings are lists of presets, each at the place where the tree that was
cleaned has a list. Of that list are kept, in their order, the presets that are safe to name and
whose values pass, and a list of which nothing is kept is not there. So whatever is found in cleaned
settings is a preset with a plain name and a slug that is a class name, but for a line break that
may stand at the end of the slug.

## Main results

* `Theme.listAt?_pruned`: migrating and pruning leave lists of presets alone;
* `Theme.at?_clean_settings_iff`: the leaves of cleaned settings;
* `Theme.clean_presets`: the presets that are kept.
-/

namespace ThemeSheet

open Text (IsClassName IsLooseClassName)
open Value (walk?)

namespace Theme

variable {check : SafetyCheck} {category : Category} {table : BlockTable} {settings w : Value}
  {q : Path} {items : List Value}

/-! ### Lists of presets -/

/-- The safe presets of a list are its safe items. -/
theorem safeItems_eq_filter {safe : List Value} (h : safeItems check category items = .ok safe) :
    safe = items.filter fun item => Result.passes (isSafeItem check category item) :=
  Result.keeping_eq_filter (safeItems check category) rfl (fun _ _ => rfl) h

/-- A list that there is at a place of lists is one that is looked at. -/
theorem mem_listPaths_of_listAt? (hq : q ∈ listPlaces category)
    (h : listAt? settings q = some items) : q ∈ listPaths settings category := by
  rw [listPaths_eq]
  rcases List.mem_cons.mp hq with rfl | hq
  · rw [h]
    exact List.mem_singleton_self _
  · -- Below a bare list there is nothing, so no list is bare where there is one of an origin.
    obtain ⟨origin, horigin, rfl⟩ := List.mem_map.mp hq
    have hbare : listAt? settings category.path = none := by
      obtain ⟨mark, hv⟩ := listAt?_eq_some_iff.mp h
      rw [Value.at?_append category.path_ne_nil, Option.bind_eq_some_iff] at hv
      obtain ⟨collection, hcollection, hv⟩ := hv
      obtain ⟨es, m, rfl⟩ := Value.exists_map_of_walk? hv
      rw [listAt?, hcollection]
      rfl
    rw [hbare]
    exact List.mem_map_of_mem horigin

/-- Where the settings of a scope are cleaned, the safe presets of every list are known. -/
theorem exists_safeItems {writes : List (Path × Value)}
    (h : settingWrites check settings = .ok writes) (hq : q ∈ listPaths settings category)
    (hitems : listAt? settings q = some items) :
    ∃ safe, safeItems check category items = .ok safe := by
  obtain ⟨cs, hcs⟩ := Result.exists_of_gather h category.mem_all
  obtain ⟨ws, hws⟩ := Result.exists_of_gather hcs hq
  rw [listWrites, hitems] at hws
  obtain ⟨safe, hsafe, -⟩ := Result.exists_of_bind hws
  exact ⟨safe, hsafe⟩

/-- What is kept of the list at a path of the settings of a scope: the safe items of it, if there
are any. -/
def IsKeptList (check : SafetyCheck) (settings : Value) (q : Path) (w : Value) : Prop :=
  ∃ category items, q ∈ listPlaces category ∧ listAt? settings q = some items ∧
    items.filter (fun item => Result.passes (isSafeItem check category item)) ≠ [] ∧
      w = .list (items.filter fun item => Result.passes (isSafeItem check category item))

/-- The leaves of what remains of settings are the lists that are kept. -/
theorem walk?_cleanSettings_iff {left : Entries} (h : cleanSettings check settings = .ok left)
    (hq : q ≠ []) (hw : w.isLeaf = true) :
    walk? q (.map left) = some w ↔ IsKeptList check settings q w := by
  rw [cleanSettings_eq] at h
  obtain ⟨writes, hwrites, rfl⟩ := Result.exists_of_map h
  have hleaves := areLeaves_settingWrites hwrites
  cases hmap : w.isMap with
  | false =>
    rw [hleaves.walk?_iff hmap, mem_settingWrites_iff hwrites]
    constructor
    · rintro ⟨category, _, safe, hkept, heq⟩
      cases heq
      obtain ⟨items, hitems, hsafe⟩ := hkept.found
      have hfilter := safeItems_eq_filter hsafe
      exact ⟨category, items, mem_listPlaces_of_mem_listPaths hkept.place, hitems,
        hfilter ▸ hkept.ne_nil, by rw [hfilter]⟩
    · rintro ⟨category, items, hplace, hitems, hne, rfl⟩
      have hpath := mem_listPaths_of_listAt? hplace hitems
      obtain ⟨safe, hsafe⟩ := exists_safeItems hwrites hpath hitems
      rw [← safeItems_eq_filter hsafe] at hne ⊢
      exact ⟨category, q, safe, ⟨hpath, ⟨items, hitems, hsafe⟩, hne⟩, rfl⟩
  | true =>
    refine iff_of_false (fun hwalk => ?_) ?_
    · cases w with
      | map inner mark =>
        exact Entries.ne_nil_of_walk?_setAll hleaves hq hwalk (Value.isLeaf_map.mp hw)
      | _ => cases hmap
    · rintro ⟨category, items, -, -, -, rfl⟩
      cases hmap

/-! ### Cleaned settings -/

/-- The leaves of the settings are the lists that are kept. -/
theorem leavesAre_settings (check : SafetyCheck) :
    LeavesAre (IsKeptList check) (cleanSettings check) settingsParts (settingsContent check) where
  written := isContent_settingsContent check
  leaves := (holdsLeaves_onlyPart _).withGroup (holdsLeaves_onlyPart _) fun v kept h =>
    (isCleaner_cleanSettings check).apart v kept h "blocks" (by decide)
  nothing := (isCleaner_settingsContent check).nothing fun _ _ => rfl
  ne_nil := by
    rintro settings q w ⟨category, items, hq, -⟩
    exact Path.ne_nil_of_isOwn (isOwn_of_mem_listPlaces hq)
  scope _ _ _ _ := walk?_cleanSettings_iff

section Cleaned

variable {raw cleaned : Value} (hraw : raw.IsTree)
include hraw

/-- **The leaves of cleaned settings** are the lists that are kept of the scopes. -/
theorem at?_clean_settings_iff (h : Theme.clean table check raw = .ok cleaned)
    (hw : w.isLeaf = true) :
    cleaned.at? ("settings" :: q) = some w ↔ ∃ scope ∈ settingScopes [] (pruned table raw),
      ∃ rest, "settings" :: q = scope.path ++ rest ∧
        IsKeptList check ((pruned table raw).getD scope.path .emptyMap) rest w := by
  have hfits := fits_sanitize table.names hraw
  have hes := areTrees_sanitize table.names hraw
  rw [clean_eq hraw] at h
  obtain ⟨styles, -, h⟩ := Result.exists_of_bind h
  obtain ⟨settings, hsettings, h⟩ := Result.exists_of_bind h
  cases h
  rw [pruned, Value.at?_cons, Value.walk?_cons_map, named?_withSections hfits.distinct,
    if_neg (by decide), if_pos rfl]
  exact (leavesAre_settings check).bind_walk?_iff hes
    (map_settingScopes hes (hfits.filled rfl) []) hsettings hw

variable {place : Path} (hplace : SettingPlace table.names place)
include hplace

/-- **Migrating and pruning leave lists of presets alone.** -/
theorem listAt?_pruned (hq : q ∈ listPlaces category) :
    listAt? ((pruned table raw).getD place .emptyMap) q = (raw.at? (place ++ q)).bind
      Value.items? := by
  have hne := Path.ne_nil_of_isOwn (isOwn_of_mem_listPlaces hq)
  obtain ⟨rest, rfl⟩ : ∃ rest, q = category.path ++ rest := by
    rcases List.mem_cons.mp hq with rfl | hq
    · exact ⟨[], (List.append_nil _).symm⟩
    · obtain ⟨origin, -, rfl⟩ := List.mem_map.mp hq
      exact ⟨_, rfl⟩
  have hcollection := walk?_sanitize_of_untouched hraw hplace (isUntouched_categoryPath category)
  rw [listAt?, Value.at?_getD_emptyMap hplace.ne_nil hne,
    Value.at?_of_ne_nil (by simp [hplace.ne_nil]), Value.at?_of_ne_nil (by simp [hplace.ne_nil]),
    ← List.append_assoc, Value.walk?_append, Value.walk?_append (v := raw), pruned, hcollection]

/-- A place below which there is something in a raw tree has a scope when the tree is pruned. -/
theorem exists_scope_of_list (hq : q ∈ listPlaces category)
    (hitems : raw.at? (place ++ q) = some (.list items)) :
    ∃ scope ∈ settingScopes [] (pruned table raw), scope.path = place := by
  have hlist := listAt?_pruned hraw hplace hq
  rw [hitems, Option.bind_some, Value.items?] at hlist
  have hthere : ((pruned table raw).walk? place).isSome = true := by
    rw [listAt?, Value.getD, Value.at?_of_ne_nil hplace.ne_nil] at hlist
    cases hv : (pruned table raw).walk? place with
    | none =>
      have hne := Path.ne_nil_of_isOwn (isOwn_of_mem_listPlaces hq)
      rw [hv, Option.getD_none, Value.at?_of_ne_nil hne, Value.emptyMap, walk?_empty hne] at hlist
      cases hlist
    | some v => rfl
  exact List.mem_map.mp
    ((mem_scopePaths_iff (fits_sanitize table.names hraw) []).mpr ⟨hplace, hthere⟩)

/-- **What is kept of the lists of a place**: of every list of the raw tree its safe items, where it
stood, if there are any. -/
theorem at?_clean_list_iff (h : Theme.clean table check raw = .ok cleaned)
    (hq : q ∈ listPlaces category) {kept : List Value} :
    cleaned.at? (place ++ q) = some (.list kept) ↔ ∃ items,
      raw.at? (place ++ q) = some (.list items) ∧ kept ≠ [] ∧
        kept = items.filter fun item => Result.passes (isSafeItem check category item) := by
  obtain ⟨r, hr⟩ : ∃ r, place ++ q = "settings" :: r :=
    List.head?_eq_some_iff.mp (hplace.head?_append q)
  have hlist := listAt?_pruned hraw hplace hq
  have hown := isOwn_of_mem_listPlaces hq
  rw [hr, at?_clean_settings_iff hraw h rfl, ← hr]
  constructor
  · rintro ⟨scope, hscope, rest, heq, category', items, hrest, hitems, hne, hkept⟩
    have hplace' := ((mem_scopePaths_iff (fits_sanitize table.names hraw) []).mp
      (List.mem_map_of_mem hscope)).1
    obtain ⟨hpath, rfl⟩ := hplace.append_inj hplace' hown (isOwn_of_mem_listPlaces hrest) heq
    cases listPlaces_inj hq hrest
    cases hkept
    rw [← hpath, hlist, Option.bind_eq_some_iff] at hitems
    obtain ⟨v, hv, hitems⟩ := hitems
    cases v with
    | list vs mark =>
      obtain ⟨rfl, -⟩ := Value.isTree_list.mp (hraw.at? hv)
      cases hitems
      exact ⟨items, hv, hne, rfl⟩
    | _ => cases hitems
  · rintro ⟨items, hitems, hne, rfl⟩
    obtain ⟨scope, hscope, rfl⟩ := exists_scope_of_list hraw hplace hq hitems
    rw [hitems] at hlist
    exact ⟨scope, hscope, q, rfl, category, items, hq, hlist, hne, rfl⟩

end Cleaned

/-! ### What is kept -/

/-- What is kept of a list are its safe items. -/
theorem isKeptOf_iff {kept : List Value} (hitems : ∀ item ∈ items, item.IsTree) :
    IsKeptOf IsLooseClassName check category items kept ↔
      kept = items.filter fun item => Result.passes (isSafeItem check category item) := by
  have hsafe : ∀ item ∈ items, (Result.passes (isSafeItem check category item) = true ↔
      ∃ preset, item = .map preset ∧ IsSafeAs IsLooseClassName check category preset) :=
    fun item hitem => Result.passes_eq_true.trans (isSafeItem_iff (hitems item hitem))
  constructor
  · rintro ⟨keep, rfl, hkeep⟩
    refine List.filter_congr fun item hitem => ?_
    rw [Bool.eq_iff_iff, hkeep item hitem, hsafe item hitem]
  · exact fun h => ⟨_, h, hsafe⟩

/-- **Of the presets of a tree those are kept that are safe**, and nothing else of its settings.
Whatever can be judged is cleaned. At every place of the settings of the root and of the blocks that
are known, the cleaned tree has a list exactly where the tree has one of which something is kept:
in their order the mappings with a plain name, with a class name as their slug, or one with a line
break behind it, and with a value that passes for every property of the category. Where no slug ends
in a line break, all slugs that are kept are class names. Every leaf of the cleaned settings is such
a list. -/
theorem clean_presets {raw : Value} (hraw : raw.IsTree) (table : BlockTable)
    (check : SafetyCheck) :
    (Judged table check (pruned table raw) →
      ∃ cleaned, Theme.clean table check raw = .ok cleaned) ∧
    ∀ cleaned, Theme.clean table check raw = .ok cleaned →
      (∀ place category q kept, SettingPlace table.names place → q ∈ listPlaces category →
        (cleaned.at? (place ++ q) = some (.list kept) ↔ ∃ items,
          raw.at? (place ++ q) = some (.list items) ∧ kept ≠ [] ∧
            IsKeptOf IsLooseClassName check category items kept)) ∧
      (∀ place category q items kept, SettingPlace table.names place → q ∈ listPlaces category →
        raw.at? (place ++ q) = some (.list items) →
        (∀ preset s, Value.map preset ∈ items →
          Entries.named? "slug" preset = some (.text s) → s.toList.getLast? ≠ some '\n') →
        cleaned.at? (place ++ q) = some (.list kept) →
          IsKeptOf IsClassName check category items kept) ∧
      ∀ q v, cleaned.at? ("settings" :: q) = some v → v.isLeaf = true →
        ∃ place category r kept, SettingPlace table.names place ∧ r ∈ listPlaces category ∧
          "settings" :: q = place ++ r ∧ v = .list kept := by
  refine ⟨exists_clean hraw, fun cleaned hclean => ?_⟩
  have hitems : ∀ {p items}, raw.at? p = some (.list items) → ∀ item ∈ items, item.IsTree :=
    fun h => (Value.isTree_list.mp (hraw.at? h)).2
  refine ⟨fun place category q kept hplace hq => ?_,
    fun place category q items kept hplace hq hlist hlast hkept => ?_, fun q v hv hleaf => ?_⟩
  · rw [at?_clean_list_iff hraw hplace hclean hq]
    refine exists_congr fun items => and_congr_right fun hlist => and_congr_right fun _ => ?_
    exact (isKeptOf_iff (hitems hlist)).symm
  · obtain ⟨items', hlist', -, hfilter⟩ := (at?_clean_list_iff hraw hplace hclean hq).mp hkept
    cases hlist.symm.trans hlist'
    exact ((isKeptOf_iff (hitems hlist)).mpr hfilter).strict hlast
  · obtain ⟨scope, hscope, rest, heq, category, items, hrest, -, -, rfl⟩ :=
      (at?_clean_settings_iff hraw hclean hleaf).mp hv
    have hplace := ((mem_scopePaths_iff (fits_sanitize table.names hraw) []).mp
      (List.mem_map_of_mem hscope)).1
    exact ⟨scope.path, category, rest, _, hplace, hrest, heq, rfl⟩

/-- Of three colors of a palette one has a slug that is no class name and one a name that is not
plain. The color that is left has both, and a value that passes. -/
theorem clean_presets_palette :
    let color := fun slug name => Value.map [(.text "slug", .text slug), (.text "name", .text name),
      (.text "color", .text "#f00")]
    let palette := fun items => Value.map [(.text "settings", .map [(.text "color", .map
      [(.text "palette", .list items)])])]
    let raw := palette [color "a b" "Blank", color "red" "Red", color "blue" "<Blue>"]
    raw.IsTree ∧
      Theme.clean [] Css.isSafeDeclaration raw = .ok (palette [color "red" "Red"]) ∧
      IsKeptOf IsClassName Css.isSafeDeclaration .palette
        [color "a b" "Blank", color "red" "Red", color "blue" "<Blue>"] [color "red" "Red"] := by
  intro color palette raw
  have htree : raw.IsTree := by decide
  have hclean : Theme.clean [] Css.isSafeDeclaration raw = .ok (palette [color "red" "Red"]) := by
    decide +kernel
  obtain ⟨-, hstrict, -⟩ := (clean_presets htree [] _).2 _ hclean
  refine ⟨htree, hclean, hstrict ["settings"] .palette ["color", "palette"] _ _ .root
    (by decide) (by decide +kernel) ?_ (by decide +kernel)⟩
  intro preset s hpreset hslug
  simp only [List.mem_cons, List.not_mem_nil, or_false] at hpreset
  rcases hpreset with h | h | h <;> cases h <;> cases hslug <;> decide

/-- A slug with a line break at its end is no class name, and its preset is kept all the same. -/
theorem clean_keeps_line_break :
    let preset : Entries := [(.text "slug", .text "red\n"), (.text "name", .text "Red"),
      (.text "color", .text "#f00")]
    let raw := Value.map [(.text "settings", .map [(.text "color", .map
      [(.text "palette", .list [.map preset])])])]
    raw.IsTree ∧ (∃ cleaned, Theme.clean [] Css.isSafeDeclaration raw = .ok cleaned ∧
      cleaned.at? ["settings", "color", "palette"] = some (.list [.map preset])) ∧
        Entries.named? "slug" preset = some (.text "red\n") ∧ ¬ IsClassName "red\n" := by
  intro preset raw
  exact ⟨by decide, ⟨raw, by decide +kernel, by decide +kernel⟩, by decide, by decide⟩

end Theme

end ThemeSheet
