import ThemeSheet.Proofs.Schema.Places
import ThemeSheet.Schema.OptIn

/-!
# Laws of the appearance tools

Expanding the flag writes settings that the schema has and removes the flag, so a tree that fits
goes on fitting; it has no flag afterwards, so expanding is done once; and settings that are off its
ways stay where they are. That the settings do not become empty needs an argument: the flag may be
all they hold, but then the first setting it turns on is there when the flag goes.

## Main results

* `OptIn.named?_flag_expandSettings`, `OptIn.walkKeys?_flag_expand_ne`: the flag is gone;
* `OptIn.fits_expand`: a tree that fits goes on fitting;
* `OptIn.expand_eq_self`: without flags nothing is changed;
* `OptIn.walk?_expand_of_diverges`, `walk?_expand_of_present`: other settings stay where they are,
  and so does every value that is there.
-/

namespace ThemeSheet.OptIn

open ThemeSheet.Path (Diverges)
open Schema (Fits field? part?)
open Value (walk? walkKeys?)

variable {blocks elements : List String} {es ss : Entries} {place q : Path}
  {fields : List (String × Schema)}

theorem expand_eq_onScopes (es : Entries) : expand es = Entries.onScopes expandSettings es := rfl

/-! ### Turning on -/

/-- **Frame.** What is off the way of a setting stays when the setting is turned on. -/
theorem walk?_turnOn_of_diverges {path : Path} (h : Diverges path q) (ss : Entries)
    (mark : Option Mark) : walk? q (.map (turnOn ss path) mark) = walk? q (.map ss mark) := by
  rw [turnOn]
  split
  · exact Value.walk?_setEntries_of_diverges h _ _ _
  · rfl

/-- A section that is there stays there. -/
theorem isSome_named?_turnOn {name : String} (h : (Entries.named? name ss).isSome = true)
    (path : Path) : (Entries.named? name (turnOn ss path)).isSome = true := by
  rw [turnOn]
  split
  · match path with
    | [] => exact h
    | [a] =>
      rw [Value.setEntries_singleton, Entries.named?_insert]
      split
      · rfl
      · exact h
    | a :: b :: rest =>
      rw [Value.setEntries_cons_cons, Entries.named?_insert]
      split
      · rfl
      · exact h
  · exact h

/-- The section of a setting that is turned on is there. -/
theorem isSome_named?_turnOn_self (name other : String) (ss : Entries) :
    (Entries.named? name (turnOn ss [name, other])).isSome = true := by
  rw [turnOn]
  split
  · rw [Value.setEntries_cons_cons, Entries.named?_insert, if_pos rfl]
    rfl
  next h =>
    cases hv : Entries.named? name ss with
    | none => simp [sectionOpen, hv, Value.lookup, Lookup.ofOption, Lookup.isAbsent] at h
    | some v => rfl

theorem isSome_named?_foldl_turnOn {name : String} (h : (Entries.named? name ss).isSome = true)
    (ps : List Path) : (Entries.named? name (ps.foldl turnOn ss)).isSome = true := by
  induction ps generalizing ss with
  | nil => exact h
  | cons path ps ih => exact ih (isSome_named?_turnOn h path)

/-- Once a list of settings has been turned on, the sections of all of them are there. -/
theorem isSome_named?_of_mem {name other : String} {ps : List Path} (h : [name, other] ∈ ps)
    (ss : Entries) : (Entries.named? name (ps.foldl turnOn ss)).isSome = true := by
  induction ps generalizing ss with
  | nil => cases h
  | cons path ps ih =>
    rcases List.mem_cons.mp h with rfl | h
    · exact isSome_named?_foldl_turnOn (isSome_named?_turnOn_self name other ss) ps
    · exact ih h (turnOn ss path)

theorem distinct_turnOn (h : Entries.Distinct ss) (path : Path) :
    Entries.Distinct (turnOn ss path) := by
  rw [turnOn]
  split
  · match path with
    | [] => exact h
    | [a] => exact h.insert _ _
    | a :: b :: rest => exact h.insert _ _
  · exact h

theorem distinct_foldl_turnOn (h : Entries.Distinct ss) (ps : List Path) :
    Entries.Distinct (ps.foldl turnOn ss) :=
  List.foldlRecOn ps turnOn h fun _ hfs path _ => distinct_turnOn hfs path

/-- The settings that are turned on are leaves of the schema. -/
theorem part?_of_mem_paths {path : Path} (h : path ∈ paths) :
    part? path (.fields Schema.settings) = some .any := by
  simp only [paths, List.mem_cons, List.not_mem_nil, or_false] at h
  rcases h with rfl | rfl | rfl | rfl | rfl | rfl | rfl | rfl | rfl <;> rfl

theorem fits_turnOn (hfields : ∀ name s, field? Schema.settings name = some s →
      field? fields name = some s) (h : Fits fields ss) {path : Path} (hpath : path ∈ paths) :
    Fits fields (turnOn ss path) := by
  rw [turnOn]
  split
  · refine h.setEntries ?_ (Schema.accepts_any _)
    have hpart := part?_of_mem_paths hpath
    cases path with
    | nil => cases hpart
    | cons name rest =>
      rw [Schema.part?_cons_fields, Option.bind_eq_some_iff] at hpart
      obtain ⟨s, hs, hpart⟩ := hpart
      rw [Schema.part?_cons_fields, hfields name s hs]
      exact hpart
  · exact h

theorem fits_foldl_turnOn (hfields : ∀ name s, field? Schema.settings name = some s →
      field? fields name = some s) (h : Fits fields ss) {ps : List Path} (hps : ps ⊆ paths) :
    Fits fields (ps.foldl turnOn ss) :=
  List.foldlRecOn ps turnOn h fun _ hfs _ hpath => fits_turnOn hfields hfs (hps hpath)

theorem walk?_foldl_turnOn_of_diverges {ps : List Path} (h : ∀ path ∈ ps, Diverges path q)
    (ss : Entries) (mark : Option Mark) :
    walk? q (.map (ps.foldl turnOn ss) mark) = walk? q (.map ss mark) := by
  refine List.foldlRecOn (motive := fun fs => walk? q (.map fs mark) = walk? q (.map ss mark))
    ps _ rfl fun fs hfs path hpath => ?_
  rw [walk?_turnOn_of_diverges (h path hpath), hfs]

/-- A setting that has a value is not turned on. -/
theorem turnOn_of_present {path : Path} {v : Value} {mark : Option Mark} (hne : path ≠ [])
    (hv : walk? path (.map ss mark) = some v) : turnOn ss path = ss := by
  obtain ⟨name, rest, rfl⟩ := List.exists_cons_of_ne_nil hne
  have hread : (Value.map ss).at? (name :: rest) = some v := hv
  have hpresent : (Value.lookup (name :: rest) (.map ss)).isAbsent = false := by
    rw [Value.lookup, hread]
    cases v <;> rfl
  rw [turnOn, hpresent, Bool.and_false]
  rfl

/-- **A value that is there stays** when settings are turned on, its own among them or not. -/
theorem walk?_foldl_turnOn_of_present {ps : List Path} {v : Value} {mark : Option Mark}
    (h : ∀ path ∈ ps, path = q ∨ Diverges path q) (hne : q ≠ [])
    (hv : walk? q (.map ss mark) = some v) :
    walk? q (.map (ps.foldl turnOn ss) mark) = some v := by
  refine List.foldlRecOn (motive := fun fs => walk? q (.map fs mark) = some v) ps _ hv
    fun fs hfs path hpath => ?_
  rcases h path hpath with rfl | hdiv
  · rw [turnOn_of_present hne hfs, hfs]
  · rw [walk?_turnOn_of_diverges hdiv, hfs]

theorem haveContent_turnOn {c : Content} (hc : c.TakesNames) (h : ss.HaveContent c)
    (path : Path) : (turnOn ss path).HaveContent c := by
  rw [turnOn]
  split
  · exact h.setEntries (fun _ _ => hc _) (c.flag true)
  · exact h

/-! ### Expanding in settings -/

/-- **The flag is gone.** -/
theorem named?_flag_expandSettings (h : Entries.Distinct ss) (hflag : flagged ss = true) :
    Entries.named? "appearanceTools" (expandSettings ss) = none := by
  rw [expandSettings, if_pos hflag]
  -- The list is made a variable, for otherwise it would be folded over.
  generalize paths = ps
  rw [Entries.named?_erase (distinct_foldl_turnOn h ps), if_pos rfl]

theorem expandSettings_of_not_flagged (h : flagged ss = false) : expandSettings ss = ss := by
  rw [expandSettings, h]
  rfl

theorem flagged_expandSettings (h : Entries.Distinct ss) : flagged (expandSettings ss) = false := by
  cases hflag : flagged ss with
  | false => rw [expandSettings_of_not_flagged hflag, hflag]
  | true => rw [flagged, named?_flag_expandSettings h hflag]

/-- Settings that fit go on fitting and do not become empty. -/
theorem fits_expandSettings
    (hfields : ∀ name s, field? Schema.settings name = some s → field? fields name = some s)
    (hne : ss ≠ []) (h : Fits fields ss) :
    expandSettings ss ≠ [] ∧ Fits fields (expandSettings ss) := by
  have hmem : ["border", "color"] ∈ paths := by decide
  rw [expandSettings]
  generalize hps : paths = ps at hmem
  split
  · have hsub : ps ⊆ paths := hps ▸ List.Subset.refl ps
    have hfits := fits_foldl_turnOn hfields h hsub
    have hborder := isSome_named?_of_mem hmem ss
    generalize ps.foldl turnOn ss = fs at hfits hborder ⊢
    refine ⟨fun hnil => ?_, hfits.erase _⟩
    -- The border is there, and it is not the flag.
    have hkeep : Entries.named? "border" (Entries.erase (.text "appearanceTools") fs) =
        Entries.named? "border" fs := Entries.get?_erase_of_not_agrees (by decide) _
    rw [← hkeep, hnil] at hborder
    cases hborder
  · exact ⟨hne, h⟩

theorem haveContent_expandSettings {c : Content} (hc : c.TakesNames) (h : ss.HaveContent c) :
    (expandSettings ss).HaveContent c := by
  rw [expandSettings]
  split
  · refine Entries.HaveContent.erase ?_ _
    exact List.foldlRecOn paths turnOn h fun _ hfs path _ => haveContent_turnOn hc hfs path
  · exact h

/-- Off the way of the flag there is what turning on leaves there, if the flag is there at all. -/
theorem walk?_expandSettings (hflag : Diverges ["appearanceTools"] q) (ss : Entries)
    (mark : Option Mark) : walk? q (.map (expandSettings ss) mark) =
      walk? q (.map (if flagged ss then paths.foldl turnOn ss else ss) mark) := by
  rw [expandSettings]
  split
  · generalize paths.foldl turnOn ss = fs
    have herase := Value.walk?_unsetEntries_of_diverges hflag fs mark
    rwa [Value.unsetEntries] at herase
  · rfl

/-- **Frame.** What is off the way of the flag and of the settings it turns on stays. -/
theorem walk?_expandSettings_of_diverges (hflag : Diverges ["appearanceTools"] q)
    (h : ∀ path ∈ paths, Diverges path q) (ss : Entries) (mark : Option Mark) :
    walk? q (.map (expandSettings ss) mark) = walk? q (.map ss mark) := by
  rw [walk?_expandSettings hflag]
  split
  · exact walk?_foldl_turnOn_of_diverges h ss mark
  · rfl

/-- **A value that is there stays** when the flag is expanded. -/
theorem walk?_expandSettings_of_present {v : Value} {mark : Option Mark}
    (hflag : Diverges ["appearanceTools"] q) (h : ∀ path ∈ paths, path = q ∨ Diverges path q)
    (hv : walk? q (.map ss mark) = some v) : walk? q (.map (expandSettings ss) mark) = some v := by
  have hne : q ≠ [] := by
    rintro rfl
    exact absurd hflag (by simp)
  rw [walk?_expandSettings hflag]
  split
  · exact walk?_foldl_turnOn_of_present h hne hv
  · exact hv

theorem named?_blocks_expandSettings (ss : Entries) :
    Entries.named? "blocks" (expandSettings ss) = Entries.named? "blocks" ss := by
  have h : walk? ["blocks"] (.map (expandSettings ss)) = walk? ["blocks"] (.map ss) :=
    walk?_expandSettings_of_diverges (by decide) (by decide) ss none
  rwa [Value.walk?_singleton_map, Value.walk?_singleton_map] at h

/-! ### Expanding in a tree -/

/-- **A tree that fits goes on fitting.** -/
theorem fits_expand (h : Fits (Schema.wholeTheme blocks elements) es) :
    Fits (Schema.wholeTheme blocks elements) (expand es) :=
  h.onScopes fun _ _ hfields hne hss => fits_expandSettings hfields hne hss

/-- **Expanding brings nothing but truth values into a tree.** -/
theorem haveContent_expand {c : Content} (hc : c.TakesNames) (h : es.HaveContent c) :
    (expand es).HaveContent c :=
  h.onScopes fun _ => haveContent_expandSettings hc

/-- The settings of a place have no flag. -/
def Unflagged (place : Path) (tree : Value) : Prop :=
  walk? (place ++ ["appearanceTools"]) tree ≠ some (.bool true)

theorem flagged_eq_true_iff (mark : Option Mark) : flagged ss = true ↔
    walk? ["appearanceTools"] (.map ss mark) = some (.bool true) := by
  rw [Value.walk?_singleton_map, flagged]
  constructor
  · intro h
    split at h
    next b hb => rw [hb, h]
    next => cases h
  · intro h
    rw [h]

/-- **Without flags nothing is changed.** -/
theorem expand_eq_self (h : Fits (Schema.wholeTheme blocks elements) es)
    (hflag : ∀ place, SettingPlace blocks place → Unflagged place (.map es)) : expand es = es := by
  refine Entries.onScopes_eq_self h fun place ss hplace hss => ?_
  refine expandSettings_of_not_flagged (Bool.eq_false_iff.mpr fun hflagged => ?_)
  refine hflag place hplace ?_
  rw [Value.walk?_append, hss, Option.bind_some]
  exact (flagged_eq_true_iff none).mp hflagged

/-- What stands at a path of settings, once the tree has been expanded. -/
theorem walkKeys?_expand {keys : List Key} (h : SettingKeys keys) (hq : q.isOwn = true)
    (es : Entries) (mark : Option Mark) : walkKeys? (keys ++ q.keys) (.map (expand es) mark) =
      ((walkKeys? keys (.map es mark)).map (Value.onMap expandSettings)).bind (walk? q) :=
  Entries.walkKeys?_onScopes named?_blocks_expandSettings h hq es mark

/-- **No flag is left** beside settings with distinct keys. -/
theorem walkKeys?_flag_expand_ne {keys : List Key} (h : SettingKeys keys) (es : Entries)
    (mark : Option Mark)
    (hd : ∀ ss m, walkKeys? keys (.map es mark) = some (.map ss m) → Entries.Distinct ss) :
    walkKeys? (keys ++ Path.keys ["appearanceTools"]) (.map (expand es) mark) ≠
      some (.bool true) := by
  rw [walkKeys?_expand h (by decide)]
  cases hv : walkKeys? keys (.map es mark) with
  | none => simp
  | some v =>
    intro hflag
    cases v with
    | map ss m =>
      have hflagged := (flagged_eq_true_iff m).mpr hflag
      rw [flagged_expandSettings (hd ss m hv)] at hflagged
      cases hflagged
    | _ => cases hflag

/-- **No flag is left.** -/
theorem unflagged_expand (h : Fits (Schema.wholeTheme blocks elements) es)
    (hplace : SettingPlace blocks place) : Unflagged place (.map (expand es)) := by
  have hflag := walkKeys?_flag_expand_ne hplace.keys es none fun ss m hss => by
    rw [Value.walkKeys?_keys] at hss
    obtain ⟨fields, _, -, heq, hfits⟩ := h.exists_place hplace hss
    cases heq
    exact hfits.distinct
  rwa [← Path.keys_append, Value.walkKeys?_keys] at hflag

/-- **Frame.** Settings that are off the way of the flag and of the settings it turns on stay. -/
theorem walk?_expand_of_diverges (hplace : SettingPlace blocks place) (hq : q.isOwn = true)
    (hflag : Diverges ["appearanceTools"] q) (h : ∀ path ∈ paths, Diverges path q) (es : Entries) :
    walk? (place ++ q) (.map (expand es)) = walk? (place ++ q) (.map es) :=
  Entries.walk?_onScopes_eq named?_blocks_expandSettings hplace hq
    (walk?_expandSettings_of_diverges hflag h) es none

/-- **A value that is there stays** in a tree of which the flags are expanded. -/
theorem walk?_expand_of_present {v : Value} (hplace : SettingPlace blocks place)
    (hq : q.isOwn = true) (hflag : Diverges ["appearanceTools"] q)
    (h : ∀ path ∈ paths, path = q ∨ Diverges path q)
    (hv : walk? (place ++ q) (.map es) = some v) :
    walk? (place ++ q) (.map (expand es)) = some v := by
  rw [expand_eq_onScopes, Entries.walk?_onScopes named?_blocks_expandSettings hplace hq]
  rw [Value.walk?_append, Option.bind_eq_some_iff] at hv
  obtain ⟨w, hw, hv⟩ := hv
  obtain ⟨name, rest, rfl, -⟩ := Path.exists_of_isOwn hq
  obtain ⟨ss, mark, rfl⟩ := Value.exists_map_of_walk? hv
  rw [hw]
  exact walk?_expandSettings_of_present hflag h hv

/-- Entries other than the settings stay. -/
theorem named?_expand_of_ne {name : String} (h : name ≠ "settings") (es : Entries) :
    Entries.named? name (expand es) = Entries.named? name es :=
  Entries.named?_onScopes_of_ne _ es h

end ThemeSheet.OptIn
