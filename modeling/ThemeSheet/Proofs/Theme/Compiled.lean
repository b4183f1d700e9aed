import ThemeSheet.Proofs.Preset.Keying
import ThemeSheet.Proofs.Schema.Migration
import ThemeSheet.Proofs.Schema.OptIn

/-!
# What compiling establishes

A tree has been compiled when each of the four passes has nothing left to do in it. `IsCompiled`
says this of the tree itself and names no pass: its entries fit the schema, its version is not the
first one, no settings have the flag of the appearance tools, and every collection of presets is
keyed.

What the passes do to a collection is also seen here: the first three leave it where it is, and the
last one keys it.

## Main definitions

* `Theme.IsCompiled`;
* `Theme.IsUntouched`, of a setting that only pruning looks at.

## Main results

* `Theme.isCompiled_compileTree`: compiling a tree establishes it;
* `Theme.IsCompiled.compileTree_eq`: compiling changes nothing where it holds;
* `Theme.walk?_sanitize_of_untouched`, `walk?_prepare`: the first passes leave untouched settings
  where they are;
* `Theme.at?_compileTree_collection`: what stands at the path of a collection.
-/

namespace ThemeSheet.Theme

open OptIn (Unflagged)
open ThemeSheet.Path (Diverges)
open Schema (Fits)
open Value (walk?)

/-- The entries of a tree in which no pass has anything left to do, for the names of blocks. -/
structure IsCompiled (blocks : List String) (es : Entries) : Prop where
  /-- Only what the schema accepts is there, and no section of it is empty. -/
  fits : Fits (Schema.wholeTheme blocks elementNames) es
  /-- The version is not the first one. -/
  current : Migration.applies (.map es) = false
  /-- No settings have the flag of the appearance tools. -/
  unflagged : ∀ place, SettingPlace blocks place → Unflagged place (.map es)
  /-- Every collection of presets is keyed. -/
  keyed : ∀ place category v, SettingPlace blocks place →
    (Value.map es).at? (place ++ Category.path category) = some v → v.isKeyed = true

variable {blocks : List String} {es : Entries} {place : Path} {raw : Value}

/-- **Compiling changes nothing in a compiled tree.** -/
theorem IsCompiled.compileTree_eq (h : IsCompiled blocks es) (origin : Origin) :
    compileTree blocks origin (.map es) = .map es := by
  have hprepare : prepare blocks (.map es) = .map es := by
    rw [prepare, Migration.run_of_not_applies h.current, sanitize, Schema.prune_map,
      Schema.pruneEntries_of_fits _ _ h.fits, OptIn.expand_eq_self h.fits h.unflagged]
  rw [compileTree, hprepare]
  refine List.foldlRecOn (motive := fun tree => tree = Value.map es) _ _ rfl ?_
  rintro _ rfl p hp
  obtain ⟨place, category, hplace, -, rfl⟩ := (mem_collectionPaths_iff h.fits []).mp hp
  exact keyAt_eq_self fun v => h.keyed place category v hplace

/-! ### The passes before keying -/

/-- What is migrated and pruned has been pruned as proper entries, of which as much can be reached
as of the tree that has been migrated. -/
theorem exists_sanitize_eq {c : Content} (blocks : List String) (h : raw.HasContent c) :
    ∃ es : Entries, es.HaveContent c ∧
      sanitize blocks elementNames (Migration.run raw) =
        Schema.pruneEntries (Schema.wholeTheme blocks elementNames) es ∧
      ∀ q, q ≠ [] → walk? q (.map es) = walk? q (Migration.run raw) := by
  have htree := Migration.hasContent_run h
  rw [sanitize]
  cases hrun : Migration.run raw with
  | map es mark =>
    rw [hrun] at htree
    obtain ⟨rfl, hes⟩ := Value.hasContent_map.mp htree
    exact ⟨es, hes, Schema.prune_map _ es none, fun _ _ => rfl⟩
  | _ =>
    refine ⟨[], Entries.haveContent_nil, ?_, ?_⟩
    · rw [Schema.prune_of_not_map rfl, Schema.pruneEntries]
    rintro (_ | ⟨name, rest⟩) hq
    · exact absurd rfl hq
    · rfl

/-- What is left by migrating and pruning a tree fits. -/
theorem fits_sanitize (blocks : List String) (h : raw.IsTree) :
    Fits (Schema.wholeTheme blocks elementNames)
      (sanitize blocks elementNames (Migration.run raw)) := by
  obtain ⟨es, hes, heq, -⟩ := exists_sanitize_eq blocks h.content
  rw [heq]
  exact Schema.fits_pruneEntries _ es hes.areTrees

/-- Migrating and pruning bring nothing but the version into a tree. -/
theorem haveContent_sanitize {c : Content} (blocks : List String) (h : raw.HasContent c) :
    (sanitize blocks elementNames (Migration.run raw)).HaveContent c := by
  obtain ⟨es, hes, heq, -⟩ := exists_sanitize_eq blocks h
  rw [heq]
  exact Schema.haveContent_pruneEntries _ es hes

theorem areTrees_sanitize (blocks : List String) (h : raw.IsTree) :
    (sanitize blocks elementNames (Migration.run raw)).AreTrees :=
  (haveContent_sanitize blocks h.content).areTrees

/-- A leaf of the schema of the settings that neither migrating nor the appearance tools touch. -/
structure IsUntouched (q : Path) : Prop where
  own : q.isOwn = true
  leaf : Schema.part? q (.fields Schema.settings) = some .any
  inside : Schema.staysInside q (.fields Schema.settings) = true
  renames : ∀ paths ∈ Migration.renames, Diverges paths.1 q ∧ Diverges paths.2 q
  flag : Diverges ["appearanceTools"] q
  tools : ∀ path ∈ OptIn.paths, Diverges path q

theorem isUntouched_categoryPath (category : Category) : IsUntouched category.path := by
  cases category <;> constructor <;> first | rfl | decide

theorem isUntouched_custom : IsUntouched ["custom"] := by
  constructor <;> first | rfl | decide

/-- **What is untouched stays where it is** when a tree is migrated and pruned. -/
theorem walk?_sanitize_of_untouched (h : raw.IsTree) (hplace : SettingPlace blocks place) {q : Path}
    (hq : IsUntouched q) : walk? (place ++ q)
      (.map (sanitize blocks elementNames (Migration.run raw))) = walk? (place ++ q) raw := by
  have hne := Path.ne_nil_of_isOwn hq.own
  obtain ⟨es, hes, heq, hreach⟩ := exists_sanitize_eq blocks h.content
  rw [heq, ← Migration.walk?_run_of_diverges hplace hq.own hq.renames raw,
    ← hreach _ (by simp [hne])]
  exact Schema.walk?_pruneEntries hes.areTrees
    (Schema.staysInside_settingPlace hplace hne hq.leaf hq.inside)
    (Schema.part?_settingPlace hplace hne hq.leaf)

/-- **What is untouched stays where it is** until the collections are keyed. -/
theorem walk?_prepare (h : raw.IsTree) (hplace : SettingPlace blocks place) {q : Path}
    (hq : IsUntouched q) : walk? (place ++ q) (prepare blocks raw) = walk? (place ++ q) raw := by
  rw [prepare, OptIn.walk?_expand_of_diverges hplace hq.own hq.flag hq.tools,
    walk?_sanitize_of_untouched h hplace hq]

/-- What has been migrated and pruned is current. -/
theorem applies_sanitize (blocks : List String) (h : raw.IsTree) :
    Migration.applies (.map (sanitize blocks elementNames (Migration.run raw))) = false := by
  obtain ⟨es, hes, heq, hreach⟩ := exists_sanitize_eq blocks h.content
  rw [← Migration.applies_run raw, heq]
  refine Migration.applies_congr ?_
  have hversion := hreach ["version"] (by simp)
  rw [Value.walk?_singleton, Value.walk?_singleton] at hversion
  rw [← hversion, Value.entryNamed?, Value.entryNamed?, Schema.named?_pruneEntries hes.distinct]
  cases Entries.named? "version" es <;> rfl

/-! ### Compiling -/

/-- **What stands at the path of a collection** of a compiled tree is what stood there, keyed. -/
theorem at?_compileTree_collection (h : raw.IsTree) (hplace : SettingPlace blocks place)
    (category : Category) (origin : Origin) :
    (compileTree blocks origin raw).at? (place ++ category.path) =
      (raw.at? (place ++ category.path)).map (ThemeSheet.keyed origin.name) := by
  have hne : place ++ category.path ≠ [] := by simp [hplace.ne_nil]
  have hfits := OptIn.fits_expand (fits_sanitize blocks h)
  have hstays := walk?_prepare h hplace (isUntouched_categoryPath category)
  rw [← Value.at?_of_ne_nil hne, ← Value.at?_of_ne_nil hne] at hstays
  rw [compileTree, ← hstays, prepare]
  exact at?_keyByOrigin hfits [] origin.name hplace category

/-- Keying leaves alone what is off the ways of all collections. -/
theorem walk?_compileTree_of_diverges (h : raw.IsTree) (origin : Origin) {q : Path} (hq : q ≠ [])
    (hdiv : ∀ place category, SettingPlace blocks place →
      Diverges (place ++ Category.path category) q) :
    walk? q (compileTree blocks origin raw) = walk? q (prepare blocks raw) := by
  have hfits := OptIn.fits_expand (fits_sanitize blocks h)
  rw [← Value.at?_of_ne_nil hq, ← Value.at?_of_ne_nil hq]
  exact at?_keyByOrigin_of_diverges hfits [] origin.name hdiv

/-- What is no mapping among the styles of a compiled tree was there before. -/
theorem walk?_of_compileTree_styles (h : raw.IsTree) {origin : Origin} {q : Path} {v : Value}
    (hv : walk? ("styles" :: q) (compileTree blocks origin raw) = some v) (hmap : v.isMap = false) :
    walk? ("styles" :: q) raw = some v := by
  rw [walk?_compileTree_of_diverges h origin (by simp)] at hv
  · obtain ⟨es, hes, heq, hreach⟩ := exists_sanitize_eq blocks h.content
    have hexpand := OptIn.named?_expand_of_ne (by decide : "styles" ≠ "settings")
    rw [prepare, Value.walk?_cons_map, hexpand, ← Value.walk?_cons_map "styles" q _ none, heq] at hv
    have hrun := Schema.walk?_of_pruneEntries hes.areTrees hv hmap
    rw [hreach _ (by simp), Value.walk?_cons,
      Migration.entryNamed?_run_of_ne (by decide) (by decide)] at hrun
    exact hrun
  · intro place category hplace
    cases hplace <;> simp

/-- **Compiling brings nothing but names, truth values and the version into a tree.** -/
theorem hasContent_compileTree {c : Content} (hc : c.TakesNames) (blocks : List String)
    (h : raw.HasContent c) (origin : Origin) : (compileTree blocks origin raw).HasContent c :=
  hasContent_keyByOrigin hc (Value.hasContent_map.mpr
    ⟨rfl, OptIn.haveContent_expand hc (haveContent_sanitize blocks h)⟩) _ _

theorem isTree_compileTree (blocks : List String) (h : raw.IsTree) (origin : Origin) :
    (compileTree blocks origin raw).IsTree :=
  (hasContent_compileTree Content.takesNames_any blocks h.content origin).isTree

/-- **Compiling a tree establishes what compiled trees are.** -/
theorem isCompiled_compileTree (blocks : List String) (h : raw.IsTree) (origin : Origin) :
    ∃ es, compileTree blocks origin raw = .map es ∧ IsCompiled blocks es := by
  have hsanitized := fits_sanitize blocks h
  have hfits := OptIn.fits_expand hsanitized
  obtain ⟨es, heq, hes⟩ := exists_keyByOrigin_eq hfits [] origin.name
  have hcompiled : compileTree blocks origin raw = .map es := heq
  -- Neither the version nor a flag is on the way of a collection.
  have hframe : ∀ q, q ≠ [] → (∀ place category, SettingPlace blocks place →
      Diverges (place ++ Category.path category) q) → walk? q (.map es) =
        walk? q (.map (OptIn.expand (sanitize blocks elementNames (Migration.run raw)))) := by
    intro q hq hdiv
    rw [← hcompiled]
    exact walk?_compileTree_of_diverges h origin hq hdiv
  refine ⟨es, hcompiled, hes, ?_, fun place hplace => ?_, fun place category v hplace hv => ?_⟩
  · rw [← applies_sanitize blocks h]
    refine Migration.applies_congr ?_
    have hversion := hframe ["version"] (by simp) fun place category hplace => by
      cases hplace <;> simp
    rw [Value.walk?_singleton_map, Value.walk?_singleton_map,
      OptIn.named?_expand_of_ne (by decide)] at hversion
    exact hversion
  · rw [Unflagged, hframe _ (by simp)]
    · exact OptIn.unflagged_expand hsanitized hplace
    · intro place' category hplace'
      refine hplace'.diverges hplace category.isOwn_path (by decide) fun _ => ?_
      cases category <;> decide
  · rw [← hcompiled, at?_compileTree_collection h hplace, Option.map_eq_some_iff] at hv
    obtain ⟨w, -, rfl⟩ := hv
    exact isKeyed_keyed origin.name w

end ThemeSheet.Theme
