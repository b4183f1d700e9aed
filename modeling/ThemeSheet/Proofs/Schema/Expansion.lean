import ThemeSheet.Proofs.Schema.OptIn
import ThemeSheet.Proofs.Tree.Decidable
import ThemeSheet.Proofs.Tree.KeyPaths

/-!
# What the appearance tools add

Where settings hold the flag, those of the nine that are missing are turned on, and the flag goes.
A setting is missing if there is nothing at its path and it could be written there: a section that
is no mapping is in its way. Everything else in the tree is what it was, at every way by keys, and
what has come are settings that were missing and the sections that they needed. A second time there
is no flag left, so that nothing more is added.

## Main definitions

* `OptIn.IsMissing`, of settings that can be turned on;
* `OptIn.FlaggedAt`, of settings with the flag in a tree;
* `OptIn.IsExpanded`, of what becomes of a tree.

## Main results

* `OptIn.differsBy_foldl_turnOn`: what turning on adds to settings;
* `OptIn.differsBy_expand`: what the flags add to a tree;
* `OptIn.expand_exact`: what becomes of a tree, once and twice.
-/

namespace ThemeSheet.OptIn

open ThemeSheet.Path (Diverges)
open Value (walk? walkKeys? DiffersBy)

variable {es ss fs : Entries} {tree : Value} {group name : String} {place q : List Key}
  {ps : List Path} {mark : Option Mark}

/-! ### Missing settings -/

/-- A setting of a group is missing: there is nothing at its path, and the section of the group is
not there or a mapping. -/
structure IsMissing (ss : Entries) (group name : String) : Prop where
  absent : walk? [group, name] (.map ss) = none
  writable : ∀ v, Entries.named? group ss = some v → v.isMap = true

theorem isMissing_iff : IsMissing ss group name ↔ (sectionOpen [group, name] ss &&
    (Value.lookup [group, name] (.map ss)).isAbsent) = true := by
  have habsent : (Value.lookup [group, name] (.map ss)).isAbsent = true ↔
      walk? [group, name] (.map ss) = none := by
    rw [Value.lookup, Value.at?_of_ne_nil (List.cons_ne_nil _ _)]
    cases walk? [group, name] (.map ss) with
    | none => simp [Lookup.ofOption, Lookup.isAbsent]
    | some v => cases v <;> simp [Lookup.ofOption, Lookup.isAbsent]
  have hopen : sectionOpen [group, name] ss = true ↔
      ∀ v, Entries.named? group ss = some v → v.isMap = true := by
    rw [sectionOpen]
    cases Entries.named? group ss <;> simp
  rw [Bool.and_eq_true, habsent, hopen]
  exact ⟨fun h => ⟨h.writable, h.absent⟩, fun h => ⟨h.2, h.1⟩⟩

theorem turnOn_of_missing (h : IsMissing ss group name) :
    turnOn ss [group, name] = Value.setEntries [group, name] (.bool true) ss := by
  rw [turnOn, if_pos (isMissing_iff.mp h)]

theorem turnOn_of_not_missing (h : ¬ IsMissing ss group name) :
    turnOn ss [group, name] = ss := by
  rw [turnOn, if_neg (mt isMissing_iff.mpr h)]

/-- The settings of a list that are missing, and their sections. -/
def Addable (ps : List Path) (ss : Entries) (q : List Key) : Prop :=
  ∃ group name, [group, name] ∈ ps ∧ IsMissing ss group name ∧
    (q = Path.keys [group, name] ∨ q = Path.keys [group])

/-! ### What turning on adds -/

theorem walkKeys?_bool {b : Bool} (h : ((Value.bool b).walkKeys? q).isSome = true) : q = [] := by
  cases q with
  | nil => rfl
  | cons key rest => cases h

/-- A new section with one setting has a way to itself and one to the setting. -/
theorem walkKeys?_singleton {b : Bool}
    (h : ((Value.map [(.text name, .bool b)] mark).walkKeys? q).isSome = true) :
    q = [] ∨ q = [.text name] := by
  cases q with
  | nil => exact .inl rfl
  | cons key rest =>
    obtain ⟨v, hv⟩ := Option.isSome_iff_exists.mp h
    rw [Value.walkKeys?_cons_map, Option.bind_eq_some_iff] at hv
    obtain ⟨w, hw, hv⟩ := hv
    obtain ⟨k, hkey, hmem⟩ := Entries.mem_of_get? hw
    cases List.mem_singleton.mp hmem
    rw [Key.agrees_comm] at hkey
    have hrest : rest = [] := walkKeys?_bool (Option.isSome_iff_exists.mpr ⟨v, hv⟩)
    rw [Key.text_agrees_iff.mp hkey, hrest]
    exact .inr rfl

/-- Turning on a setting adds the setting, and its section if it is not there. -/
theorem differsBy_turnOn (ss : Entries) (group name : String) (mark : Option Mark) :
    DiffersBy (fun _ => False) (Addable [[group, name]] ss) (.map ss mark)
      (.map (turnOn ss [group, name]) mark) := by
  by_cases h : IsMissing ss group name
  · have hadded : ∀ q, q = Path.keys [group, name] ∨ q = Path.keys [group] →
        Addable [[group, name]] ss q := fun q hq => ⟨group, name, List.mem_singleton_self _, h, hq⟩
    rw [turnOn_of_missing h, Value.setEntries_cons_cons]
    cases hv : Entries.named? group ss with
    | none =>
      refine Value.differsBy_insert hv (fun q hq => ?_) mark
      rcases walkKeys?_singleton hq with rfl | rfl
      · exact hadded _ (.inr rfl)
      · exact hadded _ (.inl rfl)
    | some v =>
      obtain ⟨inner, m, rfl⟩ : ∃ inner m, v = .map inner m := by
        have hmap := h.writable v hv
        cases v with
        | map inner m => exact ⟨inner, m, rfl⟩
        | _ => cases hmap
      have habsent := h.absent
      rw [Value.walk?_cons_map, hv, Option.bind_some, Value.walk?_singleton_map] at habsent
      rw [Value.orEmptyMap, Value.onMap, ← Entries.modifyMap_eq_insert hv]
      refine Value.differsBy_modifyMap (fun inner' m' heq => ?_) mark
      cases hv.symm.trans heq
      refine Value.differsBy_insert habsent (fun q hq => ?_) m
      rw [walkKeys?_bool hq]
      exact hadded _ (.inl rfl)
  · rw [turnOn_of_not_missing h]
    exact .refl _ _ _

/-- What is missing after something has been added was missing before. -/
theorem IsMissing.of_differsBy {added : List Key → Prop} (h : IsMissing fs group name)
    (hadded : DiffersBy (fun _ => False) added (.map ss mark) (.map fs mark)) :
    IsMissing ss group name := by
  constructor
  · cases hv : walk? [group, name] (.map ss) with
    | none => rfl
    | some v =>
      have hkept := hadded.kept (Path.keys [group, name]) v
        (by rw [Value.walkKeys?_keys]; exact hv) id
      rw [Value.walkKeys?_keys, show walk? [group, name] (.map fs mark) = none from h.absent]
        at hkept
      cases hkept
  · intro v hv
    have hkept := hadded.kept [.text group] v (by rw [Value.walkKeys?_singleton_map]; exact hv) id
    rw [Value.walkKeys?_singleton_map] at hkept
    obtain ⟨w, hw, hshell⟩ := Option.map_eq_some_iff.mp hkept
    rw [← Value.isMap_shell, ← hshell, Value.isMap_shell]
    exact h.writable w hw

/-- **What turning on adds**: the settings that are missing, and their sections. -/
theorem differsBy_foldl_turnOn (hps : ∀ path ∈ ps, path.length = 2) (ss : Entries)
    (mark : Option Mark) :
    DiffersBy (fun _ => False) (Addable ps ss) (.map ss mark)
      (.map (ps.foldl turnOn ss) mark) := by
  induction ps generalizing ss with
  | nil => exact .refl _ _ _
  | cons path ps ih =>
    obtain ⟨hpath, hrest⟩ := List.forall_mem_cons.mp hps
    obtain ⟨group, name, rfl⟩ : ∃ group name, path = [group, name] := by
      match path, hpath with
      | [group, name], _ => exact ⟨group, name, rfl⟩
    have hstep := differsBy_turnOn ss group name mark
    refine DiffersBy.trans (hstep.mono (fun _ => id) ?_)
      ((ih hrest (turnOn ss [group, name])).mono (fun _ => id) ?_)
    · rintro q ⟨g, n, hmem, hmissing, hq⟩
      exact ⟨g, n, List.mem_cons.mpr (.inl (List.mem_singleton.mp hmem)), hmissing, hq⟩
    · rintro q ⟨g, n, hmem, hmissing, hq⟩
      exact ⟨g, n, List.mem_cons_of_mem _ hmem, hmissing.of_differsBy hstep, hq⟩

/-- A missing setting is missing until it is turned on itself. -/
theorem IsMissing.turnOn {path : Path} (h : IsMissing ss group name)
    (hdiv : Diverges path [group, name]) : IsMissing (turnOn ss path) group name := by
  refine ⟨(walk?_turnOn_of_diverges hdiv ss none).trans h.absent, fun v hv => ?_⟩
  rw [OptIn.turnOn] at hv
  split at hv
  · rcases path with _ | ⟨a, _ | ⟨b, rest⟩⟩
    · exact h.writable v hv
    · have hne : group ≠ a := by
        rintro rfl
        exact hdiv.1 (List.prefix_append [group] [name])
      rw [Value.setEntries_singleton, Entries.named?_insert, if_neg hne] at hv
      exact h.writable v hv
    · rw [Value.setEntries_cons_cons, Entries.named?_insert] at hv
      split at hv
      · obtain ⟨inner, m, hinner⟩ := Value.exists_orEmptyMap_eq (Entries.named? a ss)
        rw [hinner] at hv
        cases hv
        rfl
      · exact h.writable v hv
  · exact h.writable v hv

/-- **A missing setting is on** after it has been turned on. -/
theorem walk?_foldl_turnOn_of_missing
    (hps : ∀ path ∈ ps, path = [group, name] ∨ Diverges path [group, name])
    (hmem : [group, name] ∈ ps) (h : IsMissing ss group name) (mark : Option Mark) :
    walk? [group, name] (.map (ps.foldl turnOn ss) mark) = some (.bool true) := by
  induction ps generalizing ss with
  | nil => cases hmem
  | cons path ps ih =>
    obtain ⟨hpath, hrest⟩ := List.forall_mem_cons.mp hps
    rcases hpath with rfl | hdiv
    · rw [List.foldl_cons, turnOn_of_missing h]
      refine walk?_foldl_turnOn_of_present hrest (List.cons_ne_nil _ _) ?_
      exact Value.walk?_setEntries_self (List.cons_ne_nil _ _) _ _ _
    · refine ih hrest ((List.mem_cons.mp hmem).resolve_left ?_) (h.turnOn hdiv)
      rintro rfl
      exact hdiv.1 List.prefix_rfl

/-! ### What the flag adds to settings -/

/-- The paths of the settings have two names each, and none leads through another one. -/
theorem length_of_mem_paths : ∀ path ∈ paths, path.length = 2 := by decide

theorem eq_or_diverges_of_mem_paths {path q : Path} (hq : q ∈ paths) (h : path ∈ paths) :
    path = q ∨ Diverges path q := by
  have hall : ∀ q ∈ paths, ∀ path ∈ paths, path = q ∨ Diverges path q := by decide
  exact hall q hq path h

theorem flagged_iff :
    flagged ss = true ↔ Entries.named? "appearanceTools" ss = some (.bool true) := by
  rw [flagged_eq_true_iff none, Value.walk?_singleton_map]

/-- None of the settings is the flag. -/
theorem diverges_of_mem_paths : ∀ path ∈ paths, Diverges ["appearanceTools"] path := by decide

/-- **What the flag does to settings** that hold it: it goes, and what is missing is added. -/
theorem differsBy_expandSettings (hd : Entries.Distinct ss) (hflag : flagged ss = true)
    (mark : Option Mark) :
    DiffersBy (fun q => ∃ rest, q = .text "appearanceTools" :: rest) (Addable paths ss)
      (.map ss mark) (.map (expandSettings ss) mark) := by
  have hlength := length_of_mem_paths
  rw [expandSettings, if_pos hflag]
  generalize paths = ps at hlength
  refine ((differsBy_foldl_turnOn hlength ss mark).mono (fun _ => False.elim) fun _ => id).trans ?_
  exact Value.differsBy_erase (distinct_foldl_turnOn hd ps) (fun rest => ⟨rest, rfl⟩) mark

/-! ### What the flags add to a tree -/

/-- Settings that hold the flag stand at a way. -/
structure FlaggedAt (tree : Value) (place : List Key) (ss : Entries) : Prop where
  isPlace : SettingKeys place
  found : ∃ mark, tree.walkKeys? place = some (.map ss mark)
  flag : Entries.named? "appearanceTools" ss = some (.bool true)

/-- The ways at which the flags of a tree are, or would lead on. -/
def Removable (tree : Value) (q : List Key) : Prop :=
  ∃ place ss, FlaggedAt tree place ss ∧ ∃ rest, q = place ++ .text "appearanceTools" :: rest

/-- The ways at which flags turn something on, and to the sections of what they turn on. -/
def AddableIn (tree : Value) (q : List Key) : Prop :=
  ∃ place ss, FlaggedAt tree place ss ∧ ∃ rest, Addable paths ss rest ∧ q = place ++ rest

/-- Settings that are expanded differ by what the flags of the tree remove and add. -/
theorem differsBy_expandSettings_at (hplace : SettingKeys place)
    (hss : tree.walkKeys? place = some (.map ss mark)) (hd : Entries.Distinct ss) :
    DiffersBy (fun q => Removable tree (place ++ q)) (fun q => AddableIn tree (place ++ q))
      (.map ss mark) (.map (expandSettings ss) mark) := by
  cases hflag : flagged ss with
  | false =>
    rw [expandSettings_of_not_flagged hflag]
    exact .refl _ _ _
  | true =>
    have hat : FlaggedAt tree place ss := ⟨hplace, ⟨mark, hss⟩, flagged_iff.mp hflag⟩
    refine (differsBy_expandSettings hd hflag mark).mono ?_ ?_
    · rintro q ⟨rest, rfl⟩
      exact ⟨place, ss, hat, rest, rfl⟩
    · intro q hq
      exact ⟨place, ss, hat, q, hq, rfl⟩

/-- **What the flags do to a tree**: they go, and what is missing where they stand is added. -/
theorem differsBy_expand (h : es.AreTrees) (mark : Option Mark) :
    DiffersBy (Removable (.map es mark)) (AddableIn (.map es mark)) (.map es mark)
      (.map (expand es) mark) := by
  refine Value.differsBy_modifyMap (fun ss m hss => ?_) mark
  obtain ⟨-, htrees⟩ := Value.isTree_map.mp (h.named? hss)
  have hroot : walkKeys? [.text "settings"] (.map es mark) = some (.map ss m) := by
    rw [Value.walkKeys?_singleton_map]
    exact hss
  refine (differsBy_expandSettings_at .root hroot htrees.distinct).trans ?_
  refine Value.differsBy_modifyMap (fun bs m' hbs => ?_) m
  rw [named?_blocks_expandSettings] at hbs
  obtain ⟨-, hblocks⟩ := Value.isTree_map.mp (htrees.named? hbs)
  refine Value.differsBy_mapEach (fun key inner m'' hinner => ?_) m'
  obtain ⟨-, hinners⟩ := Value.isTree_map.mp (hblocks.get? hinner)
  have hblock : walkKeys? [.text "settings", .text "blocks", key] (.map es mark) =
      some (.map inner m'') := by
    rw [Value.walkKeys?_cons_map, ← Entries.named?, hss, Option.bind_some,
      Value.walkKeys?_cons_map, ← Entries.named?, hbs, Option.bind_some,
      Value.walkKeys?_singleton_map, hinner]
  exact differsBy_expandSettings_at (.block key) hblock hinners.distinct

/-- The settings that are turned on are settings of their place. -/
theorem isOwn_of_mem_paths : ∀ path ∈ paths, path.isOwn = true := by decide

/-- Settings with the flag are entries of a tree. -/
theorem FlaggedAt.areTrees (h : FlaggedAt tree place ss) (htree : tree.IsTree) : ss.AreTrees := by
  obtain ⟨mark, hss⟩ := h.found
  exact (Value.isTree_map.mp (htree.walkKeys? hss)).2

/-- **What becomes of a tree** of which the flags are expanded. -/
structure IsExpanded (before after : Value) : Prop where
  /-- The flag is gone. -/
  gone : ∀ place ss, FlaggedAt before place ss →
    after.walkKeys? (place ++ Path.keys ["appearanceTools"]) = none
  /-- What is missing beside a flag is on. -/
  on : ∀ place ss group name, FlaggedAt before place ss → [group, name] ∈ paths →
    IsMissing ss group name →
      after.walkKeys? (place ++ Path.keys [group, name]) = some (.bool true)
  /-- What is not missing has the value that it had. -/
  stays : ∀ place group name v, SettingKeys place → [group, name] ∈ paths →
    before.walkKeys? (place ++ Path.keys [group, name]) = some v →
      after.walkKeys? (place ++ Path.keys [group, name]) = some v
  /-- Nothing is put into a section that is no mapping. -/
  closed : ∀ place group name v, SettingKeys place → [group, name] ∈ paths →
    before.walkKeys? (place ++ Path.keys [group]) = some v → v.isMap = false →
      after.walkKeys? (place ++ Path.keys [group, name]) = none
  /-- Everything that was there is there, but for the flags. -/
  kept : ∀ q v, before.walkKeys? q = some v →
    (∀ place ss, FlaggedAt before place ss → q ≠ place ++ Path.keys ["appearanceTools"]) →
      (after.walkKeys? q).map Value.shell = some v.shell
  /-- What was not there and is there was missing beside a flag, or is the section of something
  that was. -/
  added : ∀ q, before.walkKeys? q = none → (after.walkKeys? q).isSome = true →
    ∃ place ss group name, FlaggedAt before place ss ∧ [group, name] ∈ paths ∧
      IsMissing ss group name ∧
        (q = place ++ Path.keys [group, name] ∨ q = place ++ Path.keys [group])

theorem kept_expand (h : es.AreTrees) {v : Value} (hv : walkKeys? q (.map es mark) = some v)
    (hq : ∀ place ss, FlaggedAt (.map es mark) place ss →
      q ≠ place ++ Path.keys ["appearanceTools"]) :
    (walkKeys? q (.map (expand es) mark)).map Value.shell = some v.shell := by
  refine (differsBy_expand h mark).kept q v hv ?_
  rintro ⟨place, ss, hat, rest, rfl⟩
  obtain ⟨m, hss⟩ := hat.found
  rw [Value.walkKeys?_append, hss, Option.bind_some, Value.walkKeys?_cons_map, ← Entries.named?,
    hat.flag, Option.bind_some] at hv
  have hrest : rest = [] := walkKeys?_bool (Option.isSome_iff_exists.mpr ⟨v, hv⟩)
  subst hrest
  exact hq place ss hat rfl

theorem gone_expand (h : (Value.map es mark).IsTree) (hat : FlaggedAt (.map es mark) place ss) :
    walkKeys? (place ++ Path.keys ["appearanceTools"]) (.map (expand es) mark) = none := by
  obtain ⟨m, hss⟩ := hat.found
  rw [walkKeys?_expand hat.isPlace (by decide), hss, Option.map_some, Option.bind_some, Value.onMap,
    Value.walk?_singleton_map]
  exact named?_flag_expandSettings (hat.areTrees h).distinct (flagged_iff.mpr hat.flag)

theorem on_expand (hat : FlaggedAt (.map es mark) place ss) (hpath : [group, name] ∈ paths)
    (h : IsMissing ss group name) :
    walkKeys? (place ++ Path.keys [group, name]) (.map (expand es) mark) = some (.bool true) := by
  obtain ⟨m, hss⟩ := hat.found
  rw [walkKeys?_expand hat.isPlace (isOwn_of_mem_paths _ hpath), hss, Option.map_some,
    Option.bind_some, Value.onMap, walk?_expandSettings (diverges_of_mem_paths _ hpath),
    if_pos (flagged_iff.mpr hat.flag)]
  exact walk?_foldl_turnOn_of_missing (fun _ => eq_or_diverges_of_mem_paths hpath) hpath h m

theorem stays_expand {path : Path} {v : Value} (hplace : SettingKeys place) (hpath : path ∈ paths)
    (hv : walkKeys? (place ++ path.keys) (.map es mark) = some v) :
    walkKeys? (place ++ path.keys) (.map (expand es) mark) = some v := by
  have hown := isOwn_of_mem_paths path hpath
  rw [Value.walkKeys?_append, Option.bind_eq_some_iff] at hv
  obtain ⟨u, hu, hv⟩ := hv
  rw [Value.walkKeys?_keys] at hv
  obtain ⟨a, rest, rfl, -⟩ := Path.exists_of_isOwn hown
  obtain ⟨ss, m, rfl⟩ := Value.exists_map_of_walk? hv
  rw [walkKeys?_expand hplace hown, hu, Option.map_some, Option.bind_some, Value.onMap]
  exact walk?_expandSettings_of_present (diverges_of_mem_paths _ hpath)
    (fun _ => eq_or_diverges_of_mem_paths hpath) hv

theorem closed_expand (h : es.AreTrees) (hpath : [group, name] ∈ paths) {v : Value}
    (hv : walkKeys? (place ++ Path.keys [group]) (.map es mark) = some v)
    (hmap : v.isMap = false) :
    walkKeys? (place ++ Path.keys [group, name]) (.map (expand es) mark) = none := by
  -- The section is no flag, so it is there afterwards.
  have hkept := kept_expand h hv fun place' ss' _ heq => by
    have hlast := congrArg List.getLast? heq
    have hgroup : group ≠ "appearanceTools" := by
      rintro rfl
      exact (diverges_of_mem_paths _ hpath).1 (List.prefix_append ["appearanceTools"] [name])
    simp [hgroup] at hlast
  obtain ⟨w, hw, hshell⟩ := Option.map_eq_some_iff.mp hkept
  have hsplit : place ++ Path.keys [group, name] =
      place ++ Path.keys [group] ++ [.text name] := by simp
  rw [hsplit, Value.walkKeys?_append, hw, Option.bind_some]
  refine Value.walkKeys?_cons_of_not_map ?_ _ _
  rw [← Value.isMap_shell, hshell, Value.isMap_shell, hmap]

theorem isExpanded_expand (h : (Value.map es mark).IsTree) :
    IsExpanded (.map es mark) (.map (expand es) mark) where
  gone _ _ hat := gone_expand h hat
  on _ _ _ _ hat hpath hmissing := on_expand hat hpath hmissing
  stays _ _ _ _ hplace hpath hv := stays_expand hplace hpath hv
  closed _ _ _ _ _ hpath hv hmap := closed_expand (Value.isTree_map.mp h).2 hpath hv hmap
  kept _ _ hv hq := kept_expand (Value.isTree_map.mp h).2 hv hq
  added q hnone hsome := by
    obtain ⟨place, ss, hat, rest, ⟨group, name, hpath, hmissing, hrest⟩, rfl⟩ :=
      (differsBy_expand (Value.isTree_map.mp h).2 mark).added q hnone hsome
    exact ⟨place, ss, group, name, hat, hpath, hmissing,
      hrest.imp (congrArg (place ++ ·)) (congrArg (place ++ ·))⟩

/-! ### Twice -/

/-- No flag is left anywhere. -/
theorem not_flaggedAt_expand (h : (Value.map es mark).IsTree) (place : List Key) (ss : Entries) :
    ¬ FlaggedAt (.map (expand es) mark) place ss := by
  intro hat
  obtain ⟨m, hss⟩ := hat.found
  refine walkKeys?_flag_expand_ne hat.isPlace es mark (fun fs m hfs => ?_) ?_
  · exact (Value.isTree_map.mp (h.walkKeys? hfs)).2.distinct
  · rw [Value.walkKeys?_append, hss, Option.bind_some, Value.walkKeys?_keys,
      Value.walk?_singleton_map, hat.flag]

theorem isTree_expand (h : (Value.map es mark).IsTree) : (Value.map (expand es) mark).IsTree := by
  obtain ⟨hmark, htrees⟩ := Value.isTree_map.mp h
  exact Value.isTree_map.mpr
    ⟨hmark, (haveContent_expand Content.takesNames_any htrees.content).areTrees⟩

/-- Without flags nothing is expanded. -/
theorem expand_eq_self_of_not_flaggedAt (h : (Value.map es mark).IsTree)
    (hflag : ∀ place ss, ¬ FlaggedAt (.map es mark) place ss) : expand es = es := by
  refine Entries.onScopes_eq_self_of_keys mark (fun bs m hbs => ?_) fun place ss m hplace hss => ?_
  · exact (Value.isTree_map.mp (h.walkKeys? hbs)).2.distinct
  · refine expandSettings_of_not_flagged (Bool.eq_false_iff.mpr fun hflagged => ?_)
    exact hflag place ss ⟨hplace, ⟨m, hss⟩, flagged_iff.mp hflagged⟩

/-- **Expanding twice is expanding once.** -/
theorem expand_expand (h : (Value.map es mark).IsTree) : expand (expand es) = expand es :=
  expand_eq_self_of_not_flaggedAt (isTree_expand h) (not_flaggedAt_expand h)

/-- **What the appearance tools do to a tree.** Beside every flag, what is missing is turned on, and
the flag goes; nothing else is changed, and a second time there is nothing to do. -/
theorem expand_exact (es : Entries) (h : (Value.map es).IsTree) :
    IsExpanded (.map es) (.map (expand es)) ∧ expand (expand es) = expand es :=
  ⟨isExpanded_expand h, expand_expand h⟩

/-- The root has the flag and so has a block. Of the border, what is off stays off and what is null
stays null; the color is no mapping and is left alone. The number one is no flag. -/
theorem expand_exact_of_flags :
    let flag : Key × Value := (.text "appearanceTools", .bool true)
    let spacing : Key × Value := (.text "spacing", .map [(.text "blockGap", .bool true),
      (.text "margin", .bool true), (.text "padding", .bool true)])
    let typography : Key × Value := (.text "typography", .map [(.text "lineHeight", .bool true)])
    let border := [(Key.text "color", Value.bool false), (.text "radius", .null)]
    let style := [(Key.text "style", Value.bool true), (.text "width", .bool true)]
    let numbered : Key × Value := (.text "code", .map [(.text "appearanceTools", .int 1)])
    let es : Entries := [(.text "settings", .map [flag, (.text "border", .map border),
      (.text "color", .text "red"), (.text "blocks", .map [numbered, (.int 1, .map [flag,
        (.text "border", .map (border ++ style)), (.text "color", .map [])])])])]
    let expanded : Entries := [(.text "settings", .map [(.text "border", .map (border ++ style)),
      (.text "color", .text "red"), (.text "blocks", .map [numbered, (.int 1, .map [
        (.text "border", .map (border ++ style)),
        (.text "color", .map [(.text "link", .bool true)]), spacing, typography])]),
      spacing, typography])]
    FlaggedAt (.map es) [.text "settings", .text "blocks", .int 1] [flag,
        (.text "border", .map (border ++ style)), (.text "color", .map [])] ∧
      IsExpanded (.map es) (.map expanded) ∧ expand expanded = expanded := by
  intro flag spacing typography border style numbered es expanded
  have hexpanded : expand es = expanded := by decide +kernel
  obtain ⟨hexact, htwice⟩ := expand_exact es (by decide +kernel)
  rw [hexpanded] at hexact htwice
  exact ⟨⟨.block (.int 1), ⟨none, rfl⟩, rfl⟩, hexact, htwice⟩

end ThemeSheet.OptIn
