import ThemeSheet.Proofs.Schema.Places
import ThemeSheet.Preset.Collection

/-!
# Keying collections by origin

The collections of presets stand at the same paths below every place, and these paths diverge. So
keying one of them has no bearing on another, and the whole pass is seen at each of them alone: what
stands there becomes `keyed`, and everything off these paths stays.

## Main definitions

* `Value.isKeyed`, `keyed`: what needs no key, and what a collection becomes.

## Main results

* `SettingPlace.collection_inj`, `collection_eq_or_diverges`: the paths of collections tell them
  apart, and diverge;
* `at?_keyByOrigin`: what stands at the path of a collection after keying;
* `at?_keyByOrigin_of_diverges`, `exists_keyByOrigin_eq`: what keying leaves.
-/

namespace ThemeSheet

open ThemeSheet.Path (Diverges)

/-! ### Keyed values -/

/-- Whether a collection needs no key: it is neither a list nor false without being null. -/
def Value.isKeyed : Value → Bool
  | .null => true
  | .list _ _ => false
  | v => v.truthy

/-- What a collection becomes where collections are keyed by an origin. -/
def keyed (origin : String) (v : Value) : Value := (keyedCollection? origin v).getD v

theorem keyedCollection?_eq_none_iff {origin : String} {v : Value} :
    keyedCollection? origin v = none ↔ v.isKeyed = true := by
  cases v <;> simp [keyedCollection?, Value.isKeyed]

theorem eq_of_keyedCollection?_eq_some {origin : String} {v w : Value}
    (h : keyedCollection? origin v = some w) : w = .map [(.text origin, v)] := by
  cases v with
  | null => cases h
  | list vs mark => exact (Option.some.inj h).symm
  | _ =>
    simp only [keyedCollection?] at h
    split at h
    · cases h
    · exact (Option.some.inj h).symm

theorem keyed_of_isKeyed {v : Value} (h : v.isKeyed = true) (origin : String) :
    keyed origin v = v := by
  rw [keyed, keyedCollection?_eq_none_iff.mpr h]
  rfl

theorem isKeyed_keyed (origin : String) (v : Value) : (keyed origin v).isKeyed = true := by
  by_cases h : v.isKeyed = true
  · rw [keyed_of_isKeyed h]
    exact h
  · have keys : ∃ es, keyed origin v = .map es ∧ es ≠ [] := by
      refine ⟨[(.text origin, v)], ?_, by simp⟩
      cases v <;> simp_all [keyed, keyedCollection?, Value.isKeyed]
    obtain ⟨es, heq, hne⟩ := keys
    rw [heq]
    simpa [Value.isKeyed, Value.truthy] using hne

theorem isKeyed_map {es : Entries} {mark : Option Mark} :
    (Value.map es mark).isKeyed = true ↔ es ≠ [] := by
  simp [Value.isKeyed, Value.truthy]

/-! ### Paths of collections -/

theorem Category.path_diverges {category other : Category} (h : category ≠ other) :
    Diverges category.path other.path := by
  revert h
  cases category <;> cases other <;> decide

theorem Category.path_injective : Function.Injective Category.path := by
  intro category other h
  by_cases heq : category = other
  · exact heq
  · have hdiv := Category.path_diverges heq
    rw [h] at hdiv
    exact absurd List.prefix_rfl hdiv.1

theorem Origin.name_injective : Function.Injective Origin.name := by
  intro origin other h
  revert h
  cases origin <;> cases other <;> decide

/-- A place, a category and an origin are told from the path of the collection. -/
theorem SettingPlace.collection_inj {blocks : List String} {place place' : Path}
    {category category' : Category} {origin origin' : Origin} (h : SettingPlace blocks place)
    (h' : SettingPlace blocks place')
    (heq : place ++ category.path ++ [origin.name] =
      place' ++ category'.path ++ [origin'.name]) :
    place = place' ∧ category = category' ∧ origin = origin' := by
  obtain ⟨hpath, hname⟩ := List.append_inj' heq rfl
  obtain ⟨hplace, hcategory⟩ := h.append_inj h' category.isOwn_path category'.isOwn_path hpath
  exact ⟨hplace, Category.path_injective hcategory,
    Origin.name_injective (List.singleton_inj.mp hname)⟩

/-- The path of a collection is that of another one, or it diverges from it. -/
theorem SettingPlace.collection_eq_or_diverges {blocks : List String} {place place' : Path}
    (h : SettingPlace blocks place) (h' : SettingPlace blocks place') (category other : Category) :
    place ++ category.path = place' ++ other.path ∨
      Diverges (place ++ category.path) (place' ++ other.path) := by
  by_cases heq : place = place' ∧ category = other
  · obtain ⟨rfl, rfl⟩ := heq
    exact .inl rfl
  · refine .inr (h.diverges h' category.isOwn_path other.isOwn_path fun hplace => ?_)
    exact Category.path_diverges fun hcategory => heq ⟨hplace, hcategory⟩

/-! ### Keying one collection -/

section KeyAt

variable {origin : String} {p q : Path}

theorem at?_keyAt_self (hp : p ≠ []) (tree : Value) :
    (keyAt origin tree p).at? p = (tree.at? p).map (keyed origin) := by
  rw [keyAt]
  cases hv : tree.at? p with
  | none => exact hv
  | some v =>
    rw [Option.bind_some, Option.map_some]
    cases hk : keyedCollection? origin v with
    | none => rw [keyed, hk]; exact hv
    | some w =>
      rw [keyed, hk]
      cases tree with
      | map es mark => exact Value.at?_set_self hp w es mark
      | _ =>
        rw [Value.at?_of_ne_nil hp] at hv
        cases p with
        | nil => exact absurd rfl hp
        | cons name rest => cases hv

theorem at?_keyAt_of_diverges (h : Diverges p q) (tree : Value) :
    (keyAt origin tree p).at? q = tree.at? q := by
  rw [keyAt]
  split
  · exact Value.at?_set_of_diverges h _ _
  · rfl

/-- A collection that is keyed already is left alone. -/
theorem keyAt_eq_self {tree : Value} (h : ∀ v, tree.at? p = some v → v.isKeyed = true) :
    keyAt origin tree p = tree := by
  rw [keyAt]
  cases hv : tree.at? p with
  | none => rfl
  | some v => rw [Option.bind_some, keyedCollection?_eq_none_iff.mpr (h v hv)]

theorem hasContent_keyAt {c : Content} {tree : Value} (hc : c.TakesNames) (h : tree.HasContent c)
    (p : Path) : (keyAt origin tree p).HasContent c := by
  rw [keyAt]
  cases hv : tree.at? p with
  | none => exact h
  | some v =>
    rw [Option.bind_some]
    cases hk : keyedCollection? origin v with
    | none => exact h
    | some w =>
      rw [eq_of_keyedCollection?_eq_some hk]
      have hkeyed : Entries.HaveContent c [(.text origin, v)] :=
        ⟨List.pairwise_singleton _ _, by simpa using hc origin, by simpa using h.at? hv⟩
      exact h.set (fun _ _ => hc _) (Value.hasContent_map.mpr ⟨rfl, hkeyed⟩)

/-- **Keying a list of collections, seen at one of them.** -/
theorem at?_foldl_keyAt (ps : List Path) (hq : q ≠ []) (h : ∀ p ∈ ps, p = q ∨ Diverges p q)
    (tree : Value) : (ps.foldl (keyAt origin) tree).at? q =
      if q ∈ ps then (tree.at? q).map (keyed origin) else tree.at? q := by
  induction ps generalizing tree with
  | nil => simp
  | cons p ps ih =>
    obtain ⟨hp, hps⟩ := List.forall_mem_cons.mp h
    rw [List.foldl_cons, ih hps]
    rcases hp with rfl | hdiv
    · rw [at?_keyAt_self hq, Option.map_map, if_pos List.mem_cons_self, ite_eq_right_iff]
      intro _
      congr 1
      funext v
      exact keyed_of_isKeyed (isKeyed_keyed origin v) origin
    · have hne : q ≠ p := by
        rintro rfl
        exact hdiv.1 (List.prefix_refl q)
      simp only [at?_keyAt_of_diverges hdiv, List.mem_cons, hne, false_or]

theorem at?_foldl_keyAt_of_diverges (ps : List Path) (h : ∀ p ∈ ps, Diverges p q) (tree : Value) :
    (ps.foldl (keyAt origin) tree).at? q = tree.at? q := by
  induction ps generalizing tree with
  | nil => rfl
  | cons p ps ih =>
    obtain ⟨hp, hps⟩ := List.forall_mem_cons.mp h
    rw [List.foldl_cons, ih hps, at?_keyAt_of_diverges hp]

end KeyAt

/-! ### Keying the collections of a tree -/

section KeyByOrigin

variable {blocks elements : List String} {es : Entries} {place p q : Path}

theorem mem_collectionPaths_iff (h : Schema.Fits (Schema.wholeTheme blocks elements) es)
    (table : BlockTable) : p ∈ (settingScopes table (.map es)).flatMap collectionPaths ↔
      ∃ place category, SettingPlace blocks place ∧
        (Value.walk? place (.map es)).isSome = true ∧ p = place ++ Category.path category := by
  rw [List.mem_flatMap]
  constructor
  · rintro ⟨scope, hscope, hp⟩
    obtain ⟨category, -, rfl⟩ := List.mem_map.mp hp
    have hplace := (mem_scopePaths_iff h table).mp (List.mem_map_of_mem hscope)
    exact ⟨scope.path, category, hplace.1, hplace.2, rfl⟩
  · rintro ⟨place, category, hplace, hsome, rfl⟩
    obtain ⟨scope, hscope, rfl⟩ :=
      List.mem_map.mp ((mem_scopePaths_iff h table).mpr ⟨hplace, hsome⟩)
    exact ⟨scope, hscope, List.mem_map.mpr ⟨category, by cases category <;> decide, rfl⟩⟩

/-- **What stands at the path of a collection after keying.** -/
theorem at?_keyByOrigin (h : Schema.Fits (Schema.wholeTheme blocks elements) es)
    (table : BlockTable) (origin : String) (hplace : SettingPlace blocks place)
    (category : Category) :
    (keyByOrigin (settingScopes table (.map es)) origin (.map es)).at? (place ++ category.path) =
      ((Value.map es).at? (place ++ category.path)).map (keyed origin) := by
  have hne : place ++ category.path ≠ [] := by simp [hplace.ne_nil]
  rw [keyByOrigin, at?_foldl_keyAt _ hne]
  · split
    next => rfl
    next hmem =>
      -- The place leads nowhere, so nothing stands below it.
      have hnone : Value.walk? place (.map es) = none := by
        rw [← Option.not_isSome_iff_eq_none]
        intro hsome
        exact hmem ((mem_collectionPaths_iff h table).mpr ⟨place, category, hplace, hsome, rfl⟩)
      rw [Value.at?_of_ne_nil hne, Value.walk?_append, hnone]
      rfl
  · intro p hp
    obtain ⟨place', category', hplace', -, rfl⟩ := (mem_collectionPaths_iff h table).mp hp
    exact hplace'.collection_eq_or_diverges hplace category' category

/-- **Frame.** Nothing changes off the paths of collections. -/
theorem at?_keyByOrigin_of_diverges (h : Schema.Fits (Schema.wholeTheme blocks elements) es)
    (table : BlockTable) (origin : String)
    (hq : ∀ place category, SettingPlace blocks place →
      Diverges (place ++ Category.path category) q) :
    (keyByOrigin (settingScopes table (.map es)) origin (.map es)).at? q =
      (Value.map es).at? q := by
  refine at?_foldl_keyAt_of_diverges _ (fun p hp => ?_) _
  obtain ⟨place, category, hplace, -, rfl⟩ := (mem_collectionPaths_iff h table).mp hp
  exact hq place category hplace

/-- **Keying brings nothing but names into a tree.** -/
theorem hasContent_keyByOrigin {c : Content} {tree : Value} (hc : c.TakesNames)
    (h : tree.HasContent c) (scopes : List Scope) (origin : String) :
    (keyByOrigin scopes origin tree).HasContent c :=
  List.foldlRecOn _ _ h fun _ htree p _ => hasContent_keyAt hc htree p

/-- Keying keeps a tree that fits a tree that fits. -/
theorem exists_keyByOrigin_eq (h : Schema.Fits (Schema.wholeTheme blocks elements) es)
    (table : BlockTable) (origin : String) :
    ∃ fs, keyByOrigin (settingScopes table (.map es)) origin (.map es) = .map fs ∧
      Schema.Fits (Schema.wholeTheme blocks elements) fs := by
  refine List.foldlRecOn (motive := fun tree => ∃ fs, tree = Value.map fs ∧
    Schema.Fits (Schema.wholeTheme blocks elements) fs) _ _ ⟨es, rfl, h⟩ ?_
  rintro _ ⟨fs, rfl, hfs⟩ p hp
  obtain ⟨place, category, hplace, -, rfl⟩ := (mem_collectionPaths_iff h table).mp hp
  rw [keyAt]
  split
  next w _ =>
    exact ⟨_, rfl, hfs.setEntries (Schema.part?_collection hplace elements category) trivial⟩
  next => exact ⟨fs, rfl, hfs⟩

end KeyByOrigin

end ThemeSheet
