import ThemeSheet.Proofs.Theme.Compiled

/-!
# What merging keeps

Merging overlays one tree with another and then writes at a number of paths: the units of spacing
and the collections of the origins, below the places of the tree that is merged in. So whatever the
overlay has and these writes keep, a merged tree has; `mergeTrees_induction` is this principle. Two
compiled trees are overlaid to one that is compiled, and none of the writes can undo that, so
merging keeps trees compiled.

## Main definitions

* `Theme.TakenPath`, the paths at which merging writes.

## Main results

* `Theme.mergeTrees_induction`, and `Theme.mergeTrees_of_set` for compiled trees;
* `Theme.TakenPath.eq_or_diverges`: no path at which merging writes leads through another;
* `Theme.IsCompiled.overlay`, `setEntries`, `mergeTrees`: overlaying, writing and merging keep trees
  compiled.
-/

namespace ThemeSheet

open Value (joined)

/-- What an overlay has is keyed if what the two trees have is. -/
theorem Value.isKeyed_of_joined {old new : Option Value} {w : Value}
    (hold : ∀ v, old = some v → v.isKeyed = true) (hnew : ∀ v, new = some v → v.isKeyed = true)
    (h : joined old new = some w) : w.isKeyed = true := by
  cases new with
  | none => exact hold w h
  | some v =>
    rw [joined_some_right, Option.some_inj] at h
    rcases overlayValue_cases old v with ⟨base, mark, added, mark', hbase, -, heq⟩ | heq
    · rw [← h, heq, isKeyed_map]
      exact overlay_ne_nil_of_base (isKeyed_map.mp (hold _ hbase)) added
    · rw [← h, heq]
      exact hnew v rfl

namespace Theme

open OptIn (Unflagged)
open ThemeSheet.Path (Diverges)
open Schema (Fits)
open Value (walk?)

/-- The paths at which merging writes. -/
inductive TakenPath (blocks : List String) : Path → Prop
  | units {place : Path} (h : SettingPlace blocks place) :
    TakenPath blocks (place ++ ["spacing", "units"])
  | collection {place : Path} (h : SettingPlace blocks place) (category : Category)
      (origin : Origin) : TakenPath blocks (place ++ (category.path ++ [origin.name]))

variable {blocks elements : List String} {es fs : Entries} {p : Path}

section Induction

variable {motive : Value → Prop} {tree base incoming : Value} {place : Path}

theorem takeUnits_induction (htree : motive tree)
    (hset : ∀ units, incoming.solid? (place ++ ["spacing", "units"]) = some units →
      motive (tree.set (place ++ ["spacing", "units"]) units)) :
    motive (takeUnits incoming place tree) := by
  unfold takeUnits
  dsimp only
  split
  next units hunits => exact hset units hunits
  next => exact htree

theorem takeCollection_induction {slugs : Category → List Value} {category : Category}
    {origin : Origin} (htree : motive tree)
    (hset : ∀ content, incoming.solid? (place ++ category.path ++ [origin.name]) = some content →
      motive (tree.set (place ++ category.path ++ [origin.name])
        (mergedCollection tree place (slugs category) category origin content))) :
    motive (takeCollection incoming place slugs category tree origin) := by
  unfold takeCollection
  dsimp only
  split
  next content hcontent => exact hset content hcontent
  next => exact htree

/-- **What the overlay has and every take-over keeps, a merged tree has.** -/
theorem mergeTrees_induction (hoverlaid : motive (base.overlaid incoming))
    (hunits : ∀ tree, ∀ place ∈ (settingScopes [] incoming).map (·.path), ∀ units,
      incoming.solid? (place ++ ["spacing", "units"]) = some units → motive tree →
        motive (tree.set (place ++ ["spacing", "units"]) units))
    (hcollection : ∀ tree, ∀ place ∈ (settingScopes [] incoming).map (·.path),
      ∀ category origin slugs content,
        incoming.solid? (place ++ category.path ++ [origin.name]) = some content → motive tree →
          motive (tree.set (place ++ category.path ++ [origin.name])
            (mergedCollection tree place slugs category origin content))) :
    motive (mergeTrees base incoming) := by
  refine List.foldlRecOn _ _ hoverlaid fun tree htree place hplace => ?_
  refine List.foldlRecOn _ _ ?_ fun tree htree category _ => ?_
  · exact takeUnits_induction htree fun units h => hunits tree place hplace units h htree
  · refine List.foldlRecOn _ _ htree fun tree htree origin _ => ?_
    exact takeCollection_induction htree fun content h =>
      hcollection tree place hplace category origin _ content h htree

/-- **What the overlay has and writing at the paths keeps, a merged tree has.** -/
theorem mergeTrees_of_set (hfits : Fits (Schema.wholeTheme blocks elements) fs)
    (hoverlaid : motive (base.overlaid (.map fs)))
    (hset : ∀ tree p v, TakenPath blocks p → motive tree → motive (tree.set p v)) :
    motive (mergeTrees base (.map fs)) := by
  have hsetting : ∀ place ∈ (settingScopes [] (.map fs)).map (·.path), SettingPlace blocks place :=
    fun place hplace => ((mem_scopePaths_iff hfits []).mp hplace).1
  refine mergeTrees_induction hoverlaid (fun tree place hplace units _ => ?_)
    fun tree place hplace category origin slugs content _ => ?_
  · exact hset tree _ units (.units (hsetting place hplace))
  · rw [List.append_assoc]
    exact hset tree _ _ (.collection (hsetting place hplace) category origin)

end Induction

/-! ### Writing -/

/-- Any value may stand where merging writes. -/
theorem TakenPath.part? (h : TakenPath blocks p) (elements : List String) :
    Schema.part? p (.fields (Schema.wholeTheme blocks elements)) = some .any := by
  cases h with
  | units h => exact Schema.part?_settingPlace h (by simp) rfl
  | collection h category origin =>
    rw [← List.append_assoc, Schema.part?_append, Schema.part?_collection h, Option.bind_some,
      Schema.part?_any]

/-- Nothing is written outside the settings. -/
theorem TakenPath.diverges_of_ne {name : String} (h : TakenPath blocks p)
    (hname : name ≠ "settings") : Diverges p [name] := by
  cases h with
  | units h => cases h <;> simp [hname.symm]
  | collection h _ _ => cases h <;> simp [hname.symm]

/-- Merging writes off the way to what stands beside the units and the collections. -/
theorem TakenPath.diverges_own {place q : Path} (h : TakenPath blocks p)
    (hplace : SettingPlace blocks place) (hq : q.isOwn = true)
    (hunits : Diverges ["spacing", "units"] q)
    (hcollections : ∀ category : Category, Diverges category.path q) : Diverges p (place ++ q) := by
  cases h with
  | units h => exact h.diverges hplace (by decide) hq fun _ => hunits
  | collection h category origin =>
    refine h.diverges hplace (Path.isOwn_append category.isOwn_path _) hq fun _ => ?_
    have := (hcollections category).append [origin.name] []
    rwa [List.append_nil] at this

/-- No flag is written. -/
theorem TakenPath.diverges_flag {place : Path} (h : TakenPath blocks p)
    (hplace : SettingPlace blocks place) : Diverges p (place ++ ["appearanceTools"]) :=
  h.diverges_own hplace (by decide) (by decide) fun category => by cases category <;> decide

/-- A path at which merging writes goes on below a collection, or has nothing to do with it. -/
theorem TakenPath.collection_cases {place : Path} (h : TakenPath blocks p)
    (hplace : SettingPlace blocks place) (category : Category) :
    (∃ origin : Origin, p = place ++ category.path ++ [origin.name]) ∨
      Diverges p (place ++ category.path) := by
  cases h with
  | units h =>
    refine .inr (h.diverges hplace (by decide) category.isOwn_path fun _ => ?_)
    cases category <;> decide
  | collection h other origin =>
    rw [← List.append_assoc]
    rcases h.collection_eq_or_diverges hplace other category with heq | hdiv
    · exact .inl ⟨origin, by rw [heq]⟩
    · refine .inr ?_
      have := hdiv.append [origin.name] []
      rwa [List.append_nil] at this

theorem TakenPath.of_collection {place : Path} (h : SettingPlace blocks place)
    (category : Category) (origin : Origin) :
    TakenPath blocks (place ++ category.path ++ [origin.name]) := by
  rw [List.append_assoc]
  exact .collection h category origin

theorem TakenPath.ne_nil (h : TakenPath blocks p) : p ≠ [] := by
  cases h with
  | units h => simp [h.ne_nil]
  | collection h => simp [h.ne_nil]

/-- Two paths at which merging may write are the same, or they diverge. -/
theorem TakenPath.eq_or_diverges {q : Path} (h : TakenPath blocks p) (h' : TakenPath blocks q) :
    p = q ∨ Diverges p q := by
  cases h' with
  | @units place hplace =>
    cases h with
    | @units other hother =>
      by_cases heq : other = place
      · exact .inl (by rw [heq])
      · exact .inr (hother.diverges hplace (by decide) (by decide) fun h => absurd h heq)
    | @collection other hother category origin =>
      refine .inr (hother.diverges hplace (Path.isOwn_append category.isOwn_path _) (by decide) ?_)
      intro _
      cases category <;> simp [Category.path]
  | @collection place hplace category origin =>
    rw [← List.append_assoc]
    rcases h.collection_cases hplace category with ⟨other, rfl⟩ | hdiv
    · by_cases heq : other = origin
      · exact .inl (by rw [heq])
      · refine .inr ((Path.diverges_append_left _).mpr ?_)
        have hname : other.name ≠ origin.name := fun h => heq (Origin.name_injective h)
        simpa using hname
    · have := hdiv.append [] [origin.name]
      rw [List.append_nil] at this
      exact .inr this

/-- **Writing keeps a tree compiled.** -/
theorem IsCompiled.setEntries (h : IsCompiled blocks es) (hp : TakenPath blocks p) (v : Value) :
    IsCompiled blocks (Value.setEntries p v es) := by
  refine ⟨h.fits.setEntries (hp.part? elementNames) trivial, ?_, fun place hplace => ?_,
    fun place category w hplace hw => ?_⟩
  · rw [← h.current]
    refine Migration.applies_congr ?_
    have hversion := Value.walk?_setEntries_of_diverges
      (hp.diverges_of_ne (by decide : "version" ≠ "settings")) v es none
    rw [Value.walk?_singleton_map, Value.walk?_singleton_map] at hversion
    exact hversion
  · rw [Unflagged, Value.walk?_setEntries_of_diverges (hp.diverges_flag hplace)]
    exact h.unflagged place hplace
  · have hne : place ++ category.path ≠ [] := by simp [hplace.ne_nil]
    rcases hp.collection_cases hplace category with ⟨origin, rfl⟩ | hdiv
    · rw [Value.at?_of_ne_nil hne, Value.walk?_setEntries_append hne (by simp),
        Option.some_inj] at hw
      obtain ⟨under, mark, heq⟩ :=
        Value.exists_orEmptyMap_eq (walk? (place ++ category.path) (.map es))
      rw [← hw, heq, Value.onMap, Value.setEntries_singleton, isKeyed_map]
      exact Entries.insert_ne_nil _ _ _
    · refine h.keyed place category w hplace ?_
      rw [← hw]
      exact (Value.at?_set_of_diverges hdiv (.map es) v).symm

/-! ### Overlaying -/

/-- A path that stays inside the schema, of two trees that fit overlaid. -/
theorem walk?_overlay (he : Fits (Schema.wholeTheme blocks elements) es)
    (hf : Fits (Schema.wholeTheme blocks elements) fs)
    (hp : Schema.staysInside p (.fields (Schema.wholeTheme blocks elements)) = true) :
    walk? p (.map (overlay es fs)) = joined (walk? p (.map es)) (walk? p (.map fs)) := by
  rw [← Value.walk?_overlayValue (he.open hp) (hf.open hp), Value.overlayValue_map_map]

/-- **Compiled trees are overlaid to a compiled tree.** -/
theorem IsCompiled.overlay (he : IsCompiled blocks es) (hf : IsCompiled blocks fs) :
    IsCompiled blocks (overlay es fs) := by
  refine ⟨he.fits.overlay fs hf.fits, ?_, fun place hplace hflag => ?_,
    fun place category w hplace hw => ?_⟩
  · refine Bool.eq_false_iff.mpr fun happ => ?_
    rw [Migration.applies_eq_true_iff, Value.entryNamed?, named?_overlay hf.fits.distinct] at happ
    rcases Value.joined_eq_some happ rfl with h | h
    · exact Bool.false_ne_true (he.current.symm.trans (Migration.applies_eq_true_iff.mpr h))
    · exact Bool.false_ne_true (hf.current.symm.trans (Migration.applies_eq_true_iff.mpr h))
  · rw [walk?_overlay he.fits hf.fits
      (Schema.staysInside_settingPlace hplace (by simp) rfl rfl)] at hflag
    rcases Value.joined_eq_some hflag rfl with h | h
    · exact he.unflagged place hplace h
    · exact hf.unflagged place hplace h
  · have hne : place ++ category.path ≠ [] := by simp [hplace.ne_nil]
    rw [Value.at?_of_ne_nil hne, walk?_overlay he.fits hf.fits
      (Schema.staysInside_collection hplace elementNames category)] at hw
    refine Value.isKeyed_of_joined (fun v hv => ?_) (fun v hv => ?_) hw
    · exact he.keyed place category v hplace (by rwa [Value.at?_of_ne_nil hne])
    · exact hf.keyed place category v hplace (by rwa [Value.at?_of_ne_nil hne])

/-- **Merging keeps trees compiled.** -/
theorem IsCompiled.mergeTrees (he : IsCompiled blocks es) (hf : IsCompiled blocks fs) :
    ∃ ms, mergeTrees (.map es) (.map fs) = .map ms ∧ IsCompiled blocks ms := by
  refine mergeTrees_of_set (motive := fun tree => ∃ ms, tree = .map ms ∧ IsCompiled blocks ms)
    hf.fits ⟨_, Value.overlayValue_map_map es fs none none, he.overlay hf⟩ ?_
  rintro _ p v hp ⟨ms, rfl, hms⟩
  exact ⟨_, rfl, hms.setEntries hp v⟩

end Theme

end ThemeSheet
