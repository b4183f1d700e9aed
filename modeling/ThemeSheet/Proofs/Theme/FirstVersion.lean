import ThemeSheet.Proofs.Schema.Moves
import ThemeSheet.Proofs.Theme.Compiled

/-!
# Themes of the first version

A tree of the first version is migrated before anything else is done with it. The names that the
settings have then are leaves of the schema, so pruning leaves what has moved there; the appearance
tools turn on only what is absent, so they leave it, too; and no collection of presets is on its
way. So the theme holds the value of the first version under the new name, at the root and in every
block that is known. The old names are not in the schema, and nothing is left under them.

A tree here is a value without shared collections. In a shared collection a move is seen wherever
the collection stands, be it in settings or not; see `Migration.runShared`.

## Main results

* `Theme.at?_compileTree_of_walk?_run`: what has moved is in the theme;
* `Theme.walkKeys?_compileTree_old`: the old names are not;
* `Theme.firstVersion`: what becomes of a tree of the first version, and of all others.
-/

namespace ThemeSheet.Theme

open Migration (IsMigrated renames)
open ThemeSheet.Path (Diverges)
open Value (walk? walkKeys?)

variable {blocks : List String} {raw v : Value} {place : Path} {paths : Path × Path}

/-- The new name of a setting is a leaf of the settings, and among the appearance tools. -/
structure IsNewName (q : Path) : Prop where
  own : q.isOwn = true
  leaf : Schema.part? q (.fields Schema.settings) = some .any
  inside : Schema.staysInside q (.fields Schema.settings) = true
  flag : Diverges ["appearanceTools"] q
  tools : ∀ path ∈ OptIn.paths, path = q ∨ Diverges path q
  collections : ∀ category, Diverges (Category.path category) q

theorem isNewName_of_mem_renames (h : paths ∈ renames) : IsNewName paths.2 := by
  simp only [renames, List.mem_cons, List.not_mem_nil, or_false] at h
  rcases h with rfl | rfl | rfl | rfl <;> constructor <;>
    first | rfl | decide | (intro category; cases category <;> decide)

/-- **What stands under a new name after migration is in the theme.** -/
theorem at?_compileTree_of_walk?_run (h : raw.IsTree) (origin : Origin)
    (hplace : SettingPlace blocks place) {q : Path} (hq : IsNewName q)
    (hv : walk? (place ++ q) (Migration.run raw) = some v) :
    (compileTree blocks origin raw).at? (place ++ q) = some v := by
  have hqne := Path.ne_nil_of_isOwn hq.own
  have hne : place ++ q ≠ [] := by simp [hqne]
  have hdiv : ∀ place' category, SettingPlace blocks place' →
      Diverges (place' ++ Category.path category) (place ++ q) := fun place' category hplace' =>
    hplace'.diverges hplace category.isOwn_path hq.own fun _ => hq.collections category
  rw [Value.at?_of_ne_nil hne, walk?_compileTree_of_diverges h origin hne hdiv, prepare]
  refine OptIn.walk?_expand_of_present hplace hq.own hq.flag hq.tools ?_
  obtain ⟨es, hes, heq, hreach⟩ := exists_sanitize_eq blocks h.content
  rw [heq, Schema.walk?_pruneEntries hes.areTrees
    (Schema.staysInside_settingPlace hplace hqne hq.leaf hq.inside)
    (Schema.part?_settingPlace hplace hqne hq.leaf), hreach _ hne, hv]

/-- No old name is in the schema. -/
theorem part?_old (hplace : SettingPlace blocks place) (hpaths : paths ∈ renames)
    (elements : List String) :
    Schema.part? (place ++ paths.1) (.fields (Schema.wholeTheme blocks elements)) = none := by
  have hold : ∀ q ∈ renames.map Prod.fst, Schema.part? q (.fields Schema.settings) = none ∧
      Schema.part? q (.fields (Schema.settingsSection blocks)) = none := by
    simp only [renames, List.map_cons, List.map_nil, List.forall_mem_cons, List.not_mem_nil,
      false_imp_iff, implies_true, and_true]
    exact ⟨⟨rfl, rfl⟩, ⟨rfl, rfl⟩, ⟨rfl, rfl⟩, ⟨rfl, rfl⟩⟩
  obtain ⟨hblock, hroot⟩ := hold _ (List.mem_map_of_mem hpaths)
  cases hplace with
  | root => exact hroot
  | @block name hname =>
    have hpart : Schema.part? (name :: paths.1)
        (Schema.forNames blocks (.fields Schema.settings)) = none := by
      rw [Schema.part?_forNames, if_pos hname, hblock]
    exact hpart

/-- **Nothing stands under an old name in a theme.** -/
theorem walkKeys?_compileTree_old (h : raw.IsTree) (blocks : List String) (origin : Origin)
    {keys : List Key} (hkeys : SettingKeys keys) (hpaths : paths ∈ renames) :
    walkKeys? (keys ++ paths.1.keys) (compileTree blocks origin raw) = none := by
  obtain ⟨es, heq, hcompiled⟩ := isCompiled_compileTree blocks h origin
  rw [heq]
  cases hv : walkKeys? (keys ++ paths.1.keys) (.map es) with
  | none => rfl
  | some v =>
    have hread := hv
    rw [Value.walkKeys?_append, Option.bind_eq_some_iff] at hread
    obtain ⟨w, hw, -⟩ := hread
    obtain ⟨place, hplace, rfl⟩ := hcompiled.fits.exists_settingPlace hkeys hw
    rw [← Path.keys_append, Value.walkKeys?_keys] at hv
    obtain ⟨s, hs, -⟩ := hcompiled.fits.walk? hv
    rw [part?_old hplace hpaths] at hs
    cases hs

/-- **Trees of the first version.** Every setting of the first version that holds a value moves to
its new name and nothing else is touched but the version, which becomes the second; nothing is left
to be migrated then; and the theme, whatever the appearance tools say, has the value under the new
name, at the root and in every block that is known, and nothing under any old name. Every other
value is left as it is. -/
theorem firstVersion :
    (∀ raw : Value, raw.entryNamed? "version" ≠ some (.int 1) → Migration.run raw = raw) ∧
    ∀ raw : Tree, raw.1.entryNamed? "version" = some (.int 1) →
      IsMigrated raw.1 (Migration.run raw.1) ∧
      Migration.run (Migration.run raw.1) = Migration.run raw.1 ∧
      ∀ blocks origin, ∀ paths ∈ renames,
        (∀ place v, SettingPlace blocks place → walk? (place ++ paths.1) raw.1 = some v →
          v.isNull = false →
            (compileTree blocks origin raw.1).at? (place ++ paths.2) = some v) ∧
        ∀ keys, SettingKeys keys →
          walkKeys? (keys ++ paths.1.keys) (compileTree blocks origin raw.1) = none := by
  refine ⟨fun raw hraw => ?_, fun ⟨raw, htree⟩ hversion => ?_⟩
  · refine Migration.run_of_not_applies (Bool.eq_false_iff.mpr fun happ => ?_)
    exact hraw (Migration.applies_eq_true_iff.mp happ)
  · have happ := Migration.applies_eq_true_iff.mpr hversion
    have hmigrated := Migration.isMigrated_run htree happ
    refine ⟨hmigrated, Migration.run_run raw, fun blocks origin paths hpaths => ⟨?_, ?_⟩⟩
    · intro place v hplace hv hnull
      have hmove := hmigrated.move _ hplace.keys paths hpaths
      rw [← Path.keys_append, ← Path.keys_append] at hmove
      have hnew := (hmove.moved v (by rwa [Value.walkKeys?_keys]) hnull).1
      rw [Value.walkKeys?_keys] at hnew
      exact at?_compileTree_of_walk?_run htree origin hplace (isNewName_of_mem_renames hpaths) hnew
    · exact fun keys hkeys => walkKeys?_compileTree_old htree blocks origin hkeys hpaths

/-- A false that takes the place of a length at the root, and a zero in a block, are in the theme,
though the appearance tools are on; and a version that is the truth value is not the first one. -/
theorem firstVersion_falsy :
    let raw := Value.map [(.text "version", .int 1), (.text "settings", .map [
      (.text "appearanceTools", .bool true),
      (.text "border", .map [(.text "customRadius", .bool false), (.text "radius", .text "5px")]),
      (.text "blocks", .map [(.text "core/group",
        .map [(.text "spacing", .map [(.text "customMargin", .int 0)])])])])]
    let theme := compileTree ["core/group"] .theme raw
    let current := Value.map [(.text "version", .bool true)]
    raw.IsTree ∧ raw.entryNamed? "version" = some (.int 1) ∧
      theme.at? ["settings", "border", "radius"] = some (.bool false) ∧
      theme.at? ["settings", "blocks", "core/group", "spacing", "margin"] = some (.int 0) ∧
      current.entryNamed? "version" ≠ some (.int 1) ∧ Migration.run current = current := by
  intro raw theme current
  have hraw : raw.IsTree := by decide
  have hversion : raw.entryNamed? "version" = some (.int 1) := rfl
  have hcurrent : current.entryNamed? "version" ≠ some (.int 1) := by
    simp [current, Value.entryNamed?, Entries.named?]
  have hmoved := (firstVersion.2 ⟨raw, hraw⟩ hversion).2.2 ["core/group"] .theme
  refine ⟨hraw, hversion, ?_, ?_, hcurrent, firstVersion.1 current hcurrent⟩
  · exact (hmoved (["border", "customRadius"], ["border", "radius"]) (by decide)).1 ["settings"]
      (.bool false) .root rfl rfl
  · exact (hmoved (["spacing", "customMargin"], ["spacing", "margin"]) (by decide)).1
      ["settings", "blocks", "core/group"] (.int 0) (.block (by decide)) rfl rfl

end ThemeSheet.Theme
