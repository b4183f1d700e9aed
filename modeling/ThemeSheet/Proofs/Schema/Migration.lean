import ThemeSheet.Proofs.Schema.Places
import ThemeSheet.Proofs.Tree.Unshared
import ThemeSheet.Schema.Migration

/-!
# Laws of migration

Bringing a tree to the current version is a change of every place, followed by writing the version.
The new version is not the first one, so nothing is brought to the current version twice; and what
is off the ways of the settings that are moved stays where it is.

## Main results

* `Migration.applies_run`: what has been migrated is current;
* `Migration.hasContent_run`: migration brings nothing but the version into a tree;
* `Migration.walk?_run_of_diverges`: migration leaves other settings where they are.
-/

namespace ThemeSheet.Migration

open ThemeSheet.Path (Diverges)
open Value (walk?)

variable {blocks : List String} {es : Entries} {place q : Path} {tree : Value}

/-! ### Versions -/

theorem run_of_not_applies (h : applies tree = false) : run tree = tree := by
  rw [run, h]
  rfl

/-- A tree of the first version: every place is changed and the version becomes two. -/
theorem run_of_applies {mark : Option Mark} (h : applies (.map es mark) = true) :
    run (.map es mark) =
      .map (Entries.insert (.text "version") (.int 2) (Entries.onScopes renameAll es)) mark := by
  rw [run, if_pos h]
  rfl

/-- A tree of the first version is a mapping. -/
theorem exists_map_of_applies (h : applies tree = true) : ∃ es mark, tree = .map es mark := by
  cases tree with
  | map es mark => exact ⟨es, mark, rfl⟩
  | _ => cases h

/-- **What has been migrated is current.** -/
theorem applies_run (tree : Value) : applies (run tree) = false := by
  by_cases h : applies tree = true
  · obtain ⟨es, mark, rfl⟩ := exists_map_of_applies h
    rw [run_of_applies h, applies, Value.entryNamed?, Entries.named?_insert, if_pos rfl]
    rfl
  · rw [Bool.not_eq_true] at h
    rw [run_of_not_applies h, h]

theorem applies_eq_true_iff :
    applies tree = true ↔ tree.entryNamed? "version" = some (.int 1) := by
  rw [applies]
  constructor
  · intro h
    split at h
    next n hn => rw [hn, of_decide_eq_true h]
    next => cases h
  · intro h
    rw [h]
    rfl

/-- Whether a tree is current is a matter of its version. -/
theorem applies_congr {tree' : Value}
    (h : tree.entryNamed? "version" = tree'.entryNamed? "version") :
    applies tree = applies tree' := by
  rw [applies, applies, h]

/-! ### Settings -/

variable {c : Content}

theorem haveContent_rename {ss : Entries} {old new : Path} (h : ss.HaveContent c)
    (hnew : ∀ name ∈ new, c.key (.text name)) : (rename old new ss).HaveContent c := by
  rw [rename]
  split
  next v hv =>
    have hold : old ≠ [] := by
      rintro rfl
      cases hv
    rw [Value.solid?_eq_some_iff, Value.at?_of_ne_nil hold] at hv
    have hv' : v.HasContent c := (Value.hasContent_map.mpr ⟨rfl, h⟩).walk? hv.1
    exact (h.setEntries hnew hv').unsetEntries old
  next => exact h

/-- No setting has a digit in its name. -/
theorem digitless_of_mem_renames : ∀ paths ∈ renames, ∀ name ∈ paths.2,
    name.toList.any Text.isAsciiDigit = false := by
  decide +kernel

theorem haveContent_renameAll {ss : Entries} (h : ss.HaveContent c) :
    (renameAll ss).HaveContent c :=
  List.foldlRecOn renames _ h fun _ hss paths hpaths => haveContent_rename hss fun name hname =>
    c.name name (digitless_of_mem_renames paths hpaths name hname)

/-- **Migration brings nothing but the version into a tree.** -/
theorem hasContent_run (h : tree.HasContent c) : (run tree).HasContent c := by
  by_cases happ : applies tree = true
  · obtain ⟨es, mark, rfl⟩ := exists_map_of_applies happ
    obtain ⟨rfl, hes⟩ := Value.hasContent_map.mp h
    rw [run_of_applies happ]
    exact Value.hasContent_map.mpr
      ⟨rfl, (hes.onScopes fun _ => haveContent_renameAll).insert
        (c.name _ (by decide)) c.version⟩
  · rw [Bool.not_eq_true] at happ
    rw [run_of_not_applies happ]
    exact h

/-- **Frame.** What is off the ways of the two paths stays. -/
theorem walk?_rename_of_diverges {old new : Path} (hold : Diverges old q) (hnew : Diverges new q)
    (ss : Entries) (mark : Option Mark) :
    walk? q (.map (rename old new ss) mark) = walk? q (.map ss mark) := by
  rw [rename]
  split
  · rw [Value.walk?_unsetEntries_of_diverges hold, Value.walk?_setEntries_of_diverges hnew]
  · rfl

/-- What is off the ways of several moves stays. -/
theorem walk?_foldl_rename_of_diverges {pairs : List (Path × Path)}
    (h : ∀ paths ∈ pairs, Diverges paths.1 q ∧ Diverges paths.2 q) (ss : Entries)
    (mark : Option Mark) :
    walk? q (.map (pairs.foldl (fun es paths => rename paths.1 paths.2 es) ss) mark) =
      walk? q (.map ss mark) := by
  refine List.foldlRecOn (motive := fun fs => walk? q (.map fs mark) = walk? q (.map ss mark))
    pairs _ rfl fun fs hfs paths hpaths => ?_
  obtain ⟨hold, hnew⟩ := h paths hpaths
  rw [walk?_rename_of_diverges hold hnew, hfs]

/-- What is off the ways of all settings of the first version stays. -/
theorem walk?_renameAll_of_diverges
    (h : ∀ paths ∈ renames, Diverges paths.1 q ∧ Diverges paths.2 q) (ss : Entries)
    (mark : Option Mark) : walk? q (.map (renameAll ss) mark) = walk? q (.map ss mark) :=
  walk?_foldl_rename_of_diverges h ss mark

/-- The blocks are off the ways of all settings of the first version. -/
theorem named?_blocks_renameAll (ss : Entries) :
    Entries.named? "blocks" (renameAll ss) = Entries.named? "blocks" ss := by
  have h : walk? ["blocks"] (.map (renameAll ss)) = walk? ["blocks"] (.map ss) :=
    walk?_renameAll_of_diverges (by decide) ss none
  rwa [Value.walk?_singleton_map, Value.walk?_singleton_map] at h

/-- **Frame.** Settings that are off the ways of all settings of the first version stay. -/
theorem walk?_run_of_diverges (hplace : SettingPlace blocks place) (hq : q.isOwn = true)
    (hrenames : ∀ paths ∈ renames, Diverges paths.1 q ∧ Diverges paths.2 q) (tree : Value) :
    walk? (place ++ q) (run tree) = walk? (place ++ q) tree := by
  by_cases h : applies tree = true
  · obtain ⟨es, mark, rfl⟩ := exists_map_of_applies h
    rw [run_of_applies h]
    have hversion : Diverges ["version"] (place ++ q) := by
      cases hplace <;> simp
    have hkeep : ∀ ss mark', walk? q (.map (renameAll ss) mark') = walk? q (.map ss mark') :=
      walk?_renameAll_of_diverges hrenames
    rw [← Entries.walk?_onScopes_eq named?_blocks_renameAll hplace hq hkeep es]
    exact Value.walk?_setEntries_of_diverges hversion (.int 2) (Entries.onScopes renameAll es) mark
  · rw [Bool.not_eq_true] at h
    rw [run_of_not_applies h]

/-- Entries other than the version and the settings stay. -/
theorem entryNamed?_run_of_ne {name : String} (hversion : name ≠ "version")
    (hsettings : name ≠ "settings") (tree : Value) :
    (run tree).entryNamed? name = tree.entryNamed? name := by
  by_cases h : applies tree = true
  · obtain ⟨es, mark, rfl⟩ := exists_map_of_applies h
    rw [run_of_applies h]
    show Entries.named? name (Entries.insert (.text "version") (.int 2) _) = _
    rw [Entries.named?_insert, if_neg hversion]
    exact Entries.named?_onScopes_of_ne renameAll es hsettings
  · rw [Bool.not_eq_true] at h
    rw [run_of_not_applies h]

end ThemeSheet.Migration
