import ThemeSheet.Proofs.Schema.Migration
import ThemeSheet.Proofs.Tree.Removing

/-!
# What migration moves

A tree of the first version has four settings that go by another name now, and it may have them at
the root and in every block. Each that holds a value other than null moves: the value stands under
the new name afterwards, in the place of anything that stood there, and nothing stands under the old
name. Where there is nothing to move, because the old name holds null or nothing, or because there
is no mapping on the way to it, both names are left as they are. The ways of the four settings part
from each other, so none of the moves comes in the way of another.

Besides these names and the version nothing is touched, in the blocks and sections where they stand
or anywhere else; and a tree that has been migrated is not of the first version any more.

## Main definitions

* `Migration.IsMove`, of a value that has moved from one way to another;
* `Migration.Touched`, of the ways that migration touches;
* `Migration.IsMigrated`, of what becomes of a tree of the first version.

## Main results

* `Migration.isMove_rename`, `isMove_renameAll`, `isMove_run`: one move, the moves within settings,
  and those in a tree;
* `Migration.sameOff_run`: what is left alone;
* `Migration.isMigrated_run`: what becomes of a tree of the first version;
* `Migration.run_run`: nothing is migrated twice.
-/

namespace ThemeSheet.Migration

open ThemeSheet.Path (Diverges)
open Value (walk? walkKeys? SameOff)

variable {ss : Entries} {tree v w : Value} {old new : Path} {place : List Key}
  {paths : Path × Path} {pairs : List (Path × Path)} {touched : List Key → Prop}

/-- The value at the old way, unless it is null, has moved to the new way. -/
structure IsMove (old new : List Key) (before after : Value) : Prop where
  /-- What is not null stands at the new way, and nothing at the old one. -/
  moved : ∀ v, before.walkKeys? old = some v → v.isNull = false →
    after.walkKeys? new = some v ∧ after.walkKeys? old = none
  /-- If there is nothing or null, both ways are left as they are. -/
  kept : (∀ v, before.walkKeys? old = some v → v.isNull = true) →
    after.walkKeys? old = before.walkKeys? old ∧ after.walkKeys? new = before.walkKeys? new

/-- A way that leads through the version, or through the old or the new name of a setting at the
root or in a block. -/
def Touched (q : List Key) : Prop :=
  [.text "version"] <+: q ∨ ∃ place, SettingKeys place ∧ ∃ paths ∈ renames,
    place ++ paths.1.keys <+: q ∨ place ++ paths.2.keys <+: q

/-- What becomes of a tree of the first version. -/
structure IsMigrated (before after : Value) : Prop where
  /-- The settings of every place have moved. -/
  move : ∀ place, SettingKeys place → ∀ paths ∈ renames,
    IsMove (place ++ paths.1.keys) (place ++ paths.2.keys) before after
  /-- The version is the second one. -/
  version : after.entryNamed? "version" = some (.int 2)
  /-- All the rest is the same. -/
  rest : SameOff Touched before after

/-! ### The settings that move -/

/-- The ways of two settings part, under all of their names. -/
def Apart (a b : Path × Path) : Prop :=
  (Diverges a.1 b.1 ∧ Diverges a.1 b.2) ∧ Diverges a.2 b.1 ∧ Diverges a.2 b.2

instance (a b : Path × Path) : Decidable (Apart a b) := inferInstanceAs (Decidable (_ ∧ _))

theorem Apart.symm {a b : Path × Path} (h : Apart a b) : Apart b a :=
  ⟨⟨⟨h.1.1.2, h.1.1.1⟩, ⟨h.2.1.2, h.2.1.1⟩⟩, ⟨h.1.2.2, h.1.2.1⟩, ⟨h.2.2.2, h.2.2.1⟩⟩

theorem pairwise_apart_renames : renames.Pairwise Apart := by decide

theorem diverges_of_mem_renames : ∀ paths ∈ renames, Diverges paths.1 paths.2 := by decide

theorem isOwn_of_mem_renames :
    ∀ paths ∈ renames, paths.1.isOwn = true ∧ paths.2.isOwn = true := by decide

/-- The old and the new name of a setting stand in one section. -/
theorem siblings_of_mem_renames (h : paths ∈ renames) :
    ∃ pre a b, paths = (pre ++ [a], pre ++ [b]) := by
  simp only [renames, List.mem_cons, List.not_mem_nil, or_false] at h
  rcases h with rfl | rfl | rfl | rfl
  · exact ⟨["border"], _, _, rfl⟩
  · exact ⟨["spacing"], _, _, rfl⟩
  · exact ⟨["spacing"], _, _, rfl⟩
  · exact ⟨["typography"], _, _, rfl⟩

/-! ### Moves within settings -/

/-- **One move.** -/
theorem isMove_rename (hss : ss.AreTrees) (h : Diverges old new) :
    IsMove old.keys new.keys (.map ss) (.map (rename old new ss)) := by
  have hold : old ≠ [] := by
    rintro rfl
    exact absurd h (by simp)
  have hnew : new ≠ [] := by
    rintro rfl
    exact absurd h (by simp)
  constructor
  · intro v hv hnull
    rw [Value.walkKeys?_keys] at hv
    have hsolid : Value.solid? old (.map ss) = some v :=
      Value.solid?_eq_some_iff.mpr ⟨by rw [Value.at?_of_ne_nil hold, hv], hnull⟩
    have hvtree : v.IsTree := (Value.isTree_map.mpr ⟨rfl, hss⟩).walk? hv
    rw [Value.walkKeys?_keys, Value.walkKeys?_keys, rename, hsolid]
    constructor
    · rw [Value.walk?_unsetEntries_of_diverges h, Value.walk?_setEntries_self hnew]
    · exact Value.walk?_unsetEntries_self hold (hss.setEntries new hvtree) none
  · intro hnull
    have hsolid : Value.solid? old (.map ss) = none := by
      rw [Value.solid?_eq, Value.at?_of_ne_nil hold, Option.filter_eq_none_iff]
      intro v hv
      rw [Value.walkKeys?_keys] at hnull
      simp [hnull v hv]
    rw [rename, hsolid]
    exact ⟨rfl, rfl⟩

/-- What is found at the two ways before and after is all that matters. -/
theorem IsMove.congr {old new : List Key} {before after before' after' : Value}
    (h : IsMove old new before after)
    (hold : before'.walkKeys? old = before.walkKeys? old)
    (hnew : before'.walkKeys? new = before.walkKeys? new)
    (hold' : after'.walkKeys? old = after.walkKeys? old)
    (hnew' : after'.walkKeys? new = after.walkKeys? new) : IsMove old new before' after' := by
  constructor
  · rw [hold, hold', hnew']
    exact h.moved
  · rw [hold, hnew, hold', hnew']
    exact h.kept

theorem areTrees_rename (h : ss.AreTrees) (old new : Path) : (rename old new ss).AreTrees :=
  (haveContent_rename h.content fun _ _ => trivial).areTrees

/-- **Several moves,** none of which comes in the way of another. -/
theorem isMove_foldl_rename (hss : ss.AreTrees) (hapart : pairs.Pairwise Apart)
    (hdiv : ∀ paths ∈ pairs, Diverges paths.1 paths.2) (hpaths : paths ∈ pairs) :
    IsMove paths.1.keys paths.2.keys (.map ss)
      (.map (pairs.foldl (fun es paths => rename paths.1 paths.2 es) ss)) := by
  induction pairs generalizing ss with
  | nil => cases hpaths
  | cons pair pairs ih =>
    obtain ⟨hfirst, hapart⟩ := List.pairwise_cons.mp hapart
    obtain ⟨hpair, hdiv⟩ := List.forall_mem_cons.mp hdiv
    rw [List.foldl_cons]
    rcases List.mem_cons.mp hpaths with rfl | hlater
    · -- The later moves are off both ways.
      have hkeep : ∀ q : Path, (∀ other ∈ pairs, Diverges other.1 q ∧ Diverges other.2 q) →
          walkKeys? q.keys (.map (pairs.foldl (fun es paths => rename paths.1 paths.2 es)
            (rename paths.1 paths.2 ss))) =
          walkKeys? q.keys (.map (rename paths.1 paths.2 ss)) := by
        intro q hq
        rw [Value.walkKeys?_keys, Value.walkKeys?_keys]
        exact walk?_foldl_rename_of_diverges hq _ none
      refine (isMove_rename hss hpair).congr rfl rfl (hkeep _ fun other hother => ?_)
        (hkeep _ fun other hother => ?_)
      · have happ := (hfirst other hother).symm
        exact ⟨happ.1.1, happ.2.1⟩
      · have happ := (hfirst other hother).symm
        exact ⟨happ.1.2, happ.2.2⟩
    · have happ := hfirst paths hlater
      have hkeep : ∀ q : Path, Diverges pair.1 q → Diverges pair.2 q →
          walkKeys? q.keys (.map ss) = walkKeys? q.keys (.map (rename pair.1 pair.2 ss)) := by
        intro q hold hnew
        rw [Value.walkKeys?_keys, Value.walkKeys?_keys, walk?_rename_of_diverges hold hnew]
      exact (ih (areTrees_rename hss _ _) hapart hdiv hlater).congr
        (hkeep _ happ.1.1 happ.2.1) (hkeep _ happ.1.2 happ.2.2) rfl rfl

theorem isMove_renameAll (hss : ss.AreTrees) (hpaths : paths ∈ renames) :
    IsMove paths.1.keys paths.2.keys (.map ss) (.map (renameAll ss)) :=
  isMove_foldl_rename hss pairwise_apart_renames diverges_of_mem_renames hpaths

/-- In a value that is no mapping nothing moves. -/
theorem isMove_onMap_renameAll (hv : v.IsTree) (hpaths : paths ∈ renames) :
    IsMove paths.1.keys paths.2.keys v (v.onMap renameAll) := by
  have hnone : ∀ q : Path, q.isOwn = true → v.isMap = false → walkKeys? q.keys v = none := by
    intro q hq hmap
    obtain ⟨name, rest, rfl, -⟩ := Path.exists_of_isOwn hq
    exact Value.walkKeys?_cons_of_not_map hmap _ _
  cases v with
  | map ss mark =>
    obtain ⟨rfl, hss⟩ := Value.isTree_map.mp hv
    exact isMove_renameAll hss hpaths
  | _ =>
    refine ⟨fun v hv _ => ?_, fun _ => ⟨rfl, rfl⟩⟩
    rw [hnone _ (isOwn_of_mem_renames paths hpaths).1 rfl] at hv
    cases hv

/-! ### Moves in a tree -/

/-- What is below a place of a migrated tree. -/
theorem walkKeys?_run (happ : applies tree = true) (hplace : SettingKeys place) {q : Path}
    (hq : q.isOwn = true) : walkKeys? (place ++ q.keys) (run tree) =
      ((walkKeys? place tree).map (Value.onMap renameAll)).bind (walkKeys? q.keys) := by
  obtain ⟨es, mark, rfl⟩ := exists_map_of_applies happ
  have hwalk : walkKeys? q.keys = walk? q := funext (Value.walkKeys?_keys q)
  rw [run_of_applies happ, hwalk, ← Entries.walkKeys?_onScopes named?_blocks_renameAll hplace hq]
  -- The version is off the ways of all settings.
  cases hplace <;> simp [Entries.get?_insert]

/-- **The settings of every place have moved.** -/
theorem isMove_run (htree : tree.IsTree) (happ : applies tree = true)
    (hplace : SettingKeys place) (hpaths : paths ∈ renames) :
    IsMove (place ++ paths.1.keys) (place ++ paths.2.keys) tree (run tree) := by
  obtain ⟨hold, hnew⟩ := isOwn_of_mem_renames paths hpaths
  have hold' := walkKeys?_run happ hplace hold
  have hnew' := walkKeys?_run happ hplace hnew
  cases hv : walkKeys? place tree with
  | none =>
    rw [hv] at hold' hnew'
    have hnone : ∀ q, walkKeys? (place ++ q) tree = none := by
      intro q
      rw [Value.walkKeys?_append, hv]
      rfl
    refine ⟨fun v hv _ => ?_, fun _ => ⟨by rw [hold', hnone]; rfl, by rw [hnew', hnone]; rfl⟩⟩
    rw [hnone] at hv
    cases hv
  | some v =>
    rw [hv] at hold' hnew'
    have hmove := isMove_onMap_renameAll (htree.walkKeys? hv) hpaths
    have hread : ∀ q, walkKeys? (place ++ q) tree = walkKeys? q v := by
      intro q
      rw [Value.walkKeys?_append, hv]
      rfl
    constructor
    · rw [hread, hold', hnew']
      exact hmove.moved
    · rw [hread, hread, hold', hnew']
      exact hmove.kept

/-! ### What is left alone -/

/-- A move touches the ways of the two names. -/
theorem sameOff_rename {pre : Path} {a b : String}
    (hold : ∀ rest, touched (Path.keys (pre ++ [a]) ++ rest))
    (hnew : ∀ rest, touched (Path.keys (pre ++ [b]) ++ rest)) (ss : Entries)
    (mark : Option Mark) :
    SameOff touched (.map ss mark) (.map (rename (pre ++ [a]) (pre ++ [b]) ss) mark) := by
  rw [rename]
  split
  next v hv =>
    have hinto : ∃ inner m, walk? pre (.map ss mark) = some (.map inner m) := by
      cases pre with
      | nil => exact ⟨ss, mark, rfl⟩
      | cons name rest =>
        have hread := Value.walk?_of_at? (Value.solid?_eq_some_iff.mp hv).1
        rw [Value.walk?_append, Option.bind_eq_some_iff] at hread
        obtain ⟨w, hw, hread⟩ := hread
        obtain ⟨inner, m, rfl⟩ := Value.exists_map_of_walk? hread
        exact ⟨inner, m, hw⟩
    obtain ⟨inner, m, hinto⟩ := hinto
    exact (Value.sameOff_setEntries hinto hnew v).trans
      (Value.sameOff_unsetEntries (by simp) hold _ mark)
  next => exact .refl _ _

/-- The moves within settings touch the ways of all the names. -/
theorem sameOff_renameAll (h : ∀ paths ∈ renames, ∀ rest,
      touched (paths.1.keys ++ rest) ∧ touched (paths.2.keys ++ rest)) (ss : Entries)
    (mark : Option Mark) : SameOff touched (.map ss mark) (.map (renameAll ss) mark) := by
  refine List.foldlRecOn (motive := fun fs => SameOff touched (.map ss mark) (.map fs mark))
    renames _ (.refl _ _) fun fs hfs paths hpaths => ?_
  obtain ⟨pre, a, b, rfl⟩ := siblings_of_mem_renames hpaths
  exact hfs.trans (sameOff_rename (fun rest => (h _ hpaths rest).1)
    (fun rest => (h _ hpaths rest).2) fs mark)

theorem touched_of_mem_renames (hplace : SettingKeys place) (h : paths ∈ renames)
    (rest : List Key) : Touched (place ++ (paths.1.keys ++ rest)) ∧
      Touched (place ++ (paths.2.keys ++ rest)) := by
  rw [← List.append_assoc, ← List.append_assoc]
  exact ⟨.inr ⟨place, hplace, paths, h, .inl (List.prefix_append _ _)⟩,
    .inr ⟨place, hplace, paths, h, .inr (List.prefix_append _ _)⟩⟩

/-- **Migration touches the version and the settings that move,** and nothing else. -/
theorem sameOff_run (tree : Value) : SameOff Touched tree (run tree) := by
  by_cases h : applies tree = true
  · obtain ⟨es, mark, rfl⟩ := exists_map_of_applies h
    rw [run_of_applies h]
    refine .trans (Value.sameOff_modifyMap (fun ss m _ => ?_) mark)
      (Value.sameOff_insert (fun rest => .inl (List.prefix_append [_] rest)) _ _ mark)
    -- The settings of the root are changed, and then those of every block.
    refine .trans (sameOff_renameAll (fun paths hpaths => touched_of_mem_renames .root hpaths) ss m)
      (Value.sameOff_modifyMap (fun bs m _ => ?_) m)
    exact Value.sameOff_mapEach (fun key inner m =>
      sameOff_renameAll (fun paths hpaths => touched_of_mem_renames (.block key) hpaths) inner m)
      bs m
  · rw [Bool.not_eq_true] at h
    rw [run_of_not_applies h]
    exact .refl _ _

/-! ### Trees of the first version -/

/-- **What becomes of a tree of the first version.** -/
theorem isMigrated_run (htree : tree.IsTree) (happ : applies tree = true) :
    IsMigrated tree (run tree) where
  move _ hplace _ hpaths := isMove_run htree happ hplace hpaths
  version := by
    obtain ⟨es, mark, rfl⟩ := exists_map_of_applies happ
    rw [run_of_applies happ, Value.entryNamed?, Entries.named?_insert, if_pos rfl]
  rest := sameOff_run tree

/-- **Nothing is migrated twice.** -/
theorem run_run (tree : Value) : run (run tree) = run tree := run_of_not_applies (applies_run tree)

end ThemeSheet.Migration
