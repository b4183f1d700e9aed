import ThemeSheet.Proofs.Theme.Absorption
import ThemeSheet.Proofs.Theme.Runs
import ThemeSheet.Proofs.Theme.TakeOver

/-!
# Merging as a list of writes

Merging overlays a tree and then writes at some paths. What it writes at a path depends on flags and
on default presets, and both are read from a tree that is being written to. But no flag is ever
written, and where default presets are written they are what the overlay has there already. So all
of it can be told from the overlay: merging is the overlay with a list of writes, and the list is
known before the first of them. No path of the list leads through another, so each value stands in
the merged tree where it was written, and nothing else has changed.

The flags and the default presets of a merged tree are those of the overlay, so the values that were
written can be told from the merged tree as well.

## Main definitions

* `Theme.IsCompiledTree`, of trees as runs have them;
* `Theme.settingPlaces`, the places that merging goes through;
* `Theme.Taken`, the paths at which something is taken over, and `Theme.Written`, what it becomes;
* `Theme.writes`, the list of all writes;
* `Theme.DecideAlike`, of trees with the same flags and default presets.

## Main results

* `Theme.mergeTrees_eq_setAll`: merging is the overlay with the writes;
* `Theme.sameApart_mergeTrees`: nothing else differs from the overlay;
* `Theme.at?_mergeTrees_of_written`: what has been taken over, told from the merged tree;
* `Theme.isCompiledTree_of_mem_run`: the trees of a run.
-/

namespace ThemeSheet.Theme

open ThemeSheet.Path (Diverges)

variable {blocks : List String} {place p : Path} {category : Category} {origin : Origin}
  {tree incoming base v : Value}

/-! ### Compiled trees -/

/-- A compiled tree, as a value. -/
structure IsCompiledTree (blocks : List String) (tree : Value) : Prop where
  isTree : tree.IsTree
  compiled : ∃ es, tree = .map es ∧ IsCompiled blocks es

/-- The places of the settings of a tree, in the order in which merging goes through them. -/
def settingPlaces (tree : Value) : List Path := (settingScopes [] tree).map (·.path)

theorem IsCompiledTree.mem_settingPlaces_iff (h : IsCompiledTree blocks tree) :
    place ∈ settingPlaces tree ↔
      SettingPlace blocks place ∧ (tree.walk? place).isSome = true := by
  obtain ⟨es, rfl, hes⟩ := h.compiled
  exact mem_scopePaths_iff hes.fits []

theorem IsCompiledTree.settingPlace (h : IsCompiledTree blocks tree)
    (hplace : place ∈ settingPlaces tree) : SettingPlace blocks place :=
  (h.mem_settingPlaces_iff.mp hplace).1

/-- A place below which there is something is one of the places of a tree. -/
theorem IsCompiledTree.mem_settingPlaces_of_solid? {q : Path} (h : IsCompiledTree blocks tree)
    (hplace : SettingPlace blocks place) (hv : tree.solid? (place ++ q) = some v) :
    place ∈ settingPlaces tree := by
  refine h.mem_settingPlaces_iff.mpr ⟨hplace, ?_⟩
  have hat := (Value.solid?_eq_some_iff.mp hv).1
  rw [Value.at?_append hplace.ne_nil, Value.at?_of_ne_nil hplace.ne_nil,
    Option.bind_eq_some_iff] at hat
  obtain ⟨w, hw, -⟩ := hat
  rw [hw]
  rfl

/-! ### Paths and values that are taken over -/

/-- The paths at which the tree that is merged in has something that is taken over whole. -/
inductive Taken (incoming : Value) : Path → Prop
  | units {place : Path} {v : Value} (hplace : place ∈ settingPlaces incoming)
      (hv : incoming.solid? (place ++ ["spacing", "units"]) = some v) :
      Taken incoming (place ++ ["spacing", "units"])
  | collection {place : Path} {category : Category} {origin : Origin} {v : Value}
      (hplace : place ∈ settingPlaces incoming)
      (hv : incoming.solid? (place ++ category.path ++ [origin.name]) = some v) :
      Taken incoming (place ++ category.path ++ [origin.name])

/-- What becomes of it, where the flags and the default presets are those of a tree. -/
inductive Written (tree incoming : Value) : Path → Value → Prop
  | units {place : Path} {v : Value} (hplace : place ∈ settingPlaces incoming)
      (hv : incoming.solid? (place ++ ["spacing", "units"]) = some v) :
      Written tree incoming (place ++ ["spacing", "units"]) v
  | collection {place : Path} {category : Category} {origin : Origin} {content : Value}
      (hplace : place ∈ settingPlaces incoming)
      (hv : incoming.solid? (place ++ category.path ++ [origin.name]) = some content) :
      Written tree incoming (place ++ category.path ++ [origin.name])
        (mergedCollection tree place (takenSlugs tree place category) category origin content)

theorem Written.taken (h : Written tree incoming p v) : Taken incoming p := by
  cases h with
  | units hplace hv => exact .units hplace hv
  | collection hplace hv => exact .collection hplace hv

theorem Taken.exists_written (h : Taken incoming p) (tree : Value) :
    ∃ v, Written tree incoming p v := by
  cases h with
  | units hplace hv => exact ⟨_, .units hplace hv⟩
  | collection hplace hv => exact ⟨_, .collection hplace hv⟩

theorem Taken.exists_solid? (h : Taken incoming p) : ∃ v, incoming.solid? p = some v := by
  cases h with
  | units _ hv => exact ⟨_, hv⟩
  | collection _ hv => exact ⟨_, hv⟩

theorem Taken.takenPath (h : Taken incoming p) (hi : IsCompiledTree blocks incoming) :
    TakenPath blocks p := by
  cases h with
  | units hplace => exact .units (hi.settingPlace hplace)
  | collection hplace => exact .of_collection (hi.settingPlace hplace) _ _

/-- What becomes of a collection, told from its path. -/
theorem Written.collection_inv (hi : IsCompiledTree blocks incoming)
    (hplace : SettingPlace blocks place)
    (h : Written tree incoming (place ++ category.path ++ [origin.name]) v) :
    ∃ content, incoming.solid? (place ++ category.path ++ [origin.name]) = some content ∧
      v = mergedCollection tree place (takenSlugs tree place category) category origin content := by
  generalize hp : place ++ category.path ++ [origin.name] = p at h
  cases h with
  | units hother =>
    rw [List.append_assoc] at hp
    obtain ⟨-, hpath⟩ := hplace.append_inj (hi.settingPlace hother)
      (Path.isOwn_append category.isOwn_path _) (by decide) hp
    cases category <;> simp [Category.path] at hpath
  | collection hother hv =>
    obtain ⟨rfl, rfl, rfl⟩ := hplace.collection_inj (hi.settingPlace hother) hp
    exact ⟨_, hv, rfl⟩

theorem Written.units_inv (hi : IsCompiledTree blocks incoming) (hplace : SettingPlace blocks place)
    (h : Written tree incoming (place ++ ["spacing", "units"]) v) :
    incoming.solid? (place ++ ["spacing", "units"]) = some v := by
  generalize hp : place ++ ["spacing", "units"] = p at h
  cases h with
  | units hother hv => exact hv
  | @collection _ category _ _ hother =>
    rw [List.append_assoc] at hp
    obtain ⟨-, hpath⟩ := hplace.append_inj (hi.settingPlace hother) (by decide)
      (Path.isOwn_append category.isOwn_path _) hp
    cases category <;> simp [Category.path] at hpath

/-- At each path one value is written. -/
theorem Written.unique {w : Value} (hi : IsCompiledTree blocks incoming)
    (h : Written tree incoming p v) (h' : Written tree incoming p w) : v = w := by
  cases h with
  | units hplace hv =>
    exact Option.some.inj (hv.symm.trans (h'.units_inv hi (hi.settingPlace hplace)))
  | collection hplace hv =>
    obtain ⟨content, hcontent, rfl⟩ := h'.collection_inv hi (hi.settingPlace hplace)
    cases hv.symm.trans hcontent
    rfl

/-! ### The list of writes -/

/-- The write of the units of spacing at a place, if there are any. -/
def unitsWrites (incoming : Value) (place : Path) : List (Path × Value) :=
  let path := place ++ ["spacing", "units"]
  ((incoming.solid? path).map fun units => (path, units)).toList

/-- The write of the collection of a category and an origin at a place, if there is one. -/
def collectionWrites (tree incoming : Value) (place : Path) (category : Category)
    (origin : Origin) : List (Path × Value) :=
  let path := place ++ category.path ++ [origin.name]
  ((incoming.solid? path).map fun content => (path, mergedCollection tree place
    (takenSlugs tree place category) category origin content)).toList

/-- The writes of a category at a place. -/
def categoryWrites (tree incoming : Value) (place : Path) (category : Category) :
    List (Path × Value) :=
  Origin.all.flatMap (collectionWrites tree incoming place category)

/-- The writes at a place. -/
def writesAt (tree incoming : Value) (place : Path) : List (Path × Value) :=
  unitsWrites incoming place ++ Category.all.flatMap (categoryWrites tree incoming place)

/-- All writes of merging a tree, in their order. -/
def writes (tree incoming : Value) : List (Path × Value) :=
  (settingPlaces incoming).flatMap (writesAt tree incoming)

theorem mem_unitsWrites_iff : (p, v) ∈ unitsWrites incoming place ↔
    p = place ++ ["spacing", "units"] ∧ incoming.solid? p = some v := by
  simp only [unitsWrites, Option.mem_toList, Option.map_eq_some_iff, Prod.mk.injEq]
  constructor
  · rintro ⟨units, hunits, rfl, rfl⟩
    exact ⟨rfl, hunits⟩
  · rintro ⟨rfl, hv⟩
    exact ⟨v, hv, rfl, rfl⟩

theorem mem_collectionWrites_iff : (p, v) ∈ collectionWrites tree incoming place category origin ↔
    p = place ++ category.path ++ [origin.name] ∧ ∃ content, incoming.solid? p = some content ∧
      v = mergedCollection tree place (takenSlugs tree place category) category origin content := by
  simp only [collectionWrites, Option.mem_toList, Option.map_eq_some_iff, Prod.mk.injEq]
  constructor
  · rintro ⟨content, hcontent, rfl, rfl⟩
    exact ⟨rfl, content, hcontent, rfl⟩
  · rintro ⟨rfl, content, hcontent, rfl⟩
    exact ⟨content, hcontent, rfl, rfl⟩

/-- **The list has what is taken over**, and nothing else. -/
theorem mem_writes_iff : (p, v) ∈ writes tree incoming ↔ Written tree incoming p v := by
  simp only [writes, writesAt, categoryWrites, List.mem_flatMap, List.mem_append,
    mem_unitsWrites_iff, mem_collectionWrites_iff]
  constructor
  · rintro ⟨place, hplace, ⟨rfl, hv⟩ | ⟨category, -, origin, -, rfl, content, hcontent, rfl⟩⟩
    · exact .units hplace hv
    · exact .collection hplace hcontent
  · rintro (⟨hplace, hv⟩ | @⟨place, category, origin, content, hplace, hv⟩)
    · exact ⟨_, hplace, .inl ⟨rfl, hv⟩⟩
    · exact ⟨place, hplace, .inr ⟨category, by cases category <;> decide, origin,
        by cases origin <;> decide, rfl, content, hv, rfl⟩⟩

/-! ### Trees that decide alike -/

/-- Two trees have the same flags and the same default presets, at every place. -/
structure DecideAlike (blocks : List String) (tree tree' : Value) : Prop where
  flags : ∀ place category, SettingPlace blocks place →
    mayOverride tree place category = mayOverride tree' place category
  defaults : ∀ place category, SettingPlace blocks place →
    defaultItems tree place category = defaultItems tree' place category

namespace DecideAlike

variable {tree' : Value}

theorem refl (blocks : List String) (tree : Value) : DecideAlike blocks tree tree :=
  ⟨fun _ _ _ => rfl, fun _ _ _ => rfl⟩

theorem symm (h : DecideAlike blocks tree tree') : DecideAlike blocks tree' tree :=
  ⟨fun place category hplace => (h.flags place category hplace).symm,
    fun place category hplace => (h.defaults place category hplace).symm⟩

theorem defaultSlugs_eq (h : DecideAlike blocks tree tree') (hplace : SettingPlace blocks place)
    (category : Category) :
    defaultSlugs tree place category = defaultSlugs tree' place category := by
  rw [Theme.defaultSlugs_eq, Theme.defaultSlugs_eq, h.defaults place category hplace]

theorem takenSlugs_eq (h : DecideAlike blocks tree tree') (hplace : SettingPlace blocks place)
    (category : Category) : takenSlugs tree place category = takenSlugs tree' place category := by
  rw [takenSlugs, takenSlugs, h.defaultSlugs_eq .root, h.defaultSlugs_eq hplace]

/-- Trees that decide alike take a collection over alike. -/
theorem mergedCollection_eq (h : DecideAlike blocks tree tree')
    (hplace : SettingPlace blocks place) (slugs : List Value) (category : Category)
    (origin : Origin) (content : Value) :
    mergedCollection tree place slugs category origin content =
      mergedCollection tree' place slugs category origin content :=
  mergedCollection_congr (h.flags place category hplace) (h.defaults place category hplace) slugs
    origin content

end DecideAlike

/-- What is written is the same, where two trees decide alike. -/
theorem Written.of_decideAlike {tree' : Value} (h : Written tree incoming p v)
    (hi : IsCompiledTree blocks incoming) (halike : DecideAlike blocks tree tree') :
    Written tree' incoming p v := by
  cases h with
  | units hplace hv => exact .units hplace hv
  | @collection place category origin content hplace hv =>
    rw [halike.mergedCollection_eq (hi.settingPlace hplace),
      halike.takenSlugs_eq (hi.settingPlace hplace)]
    exact .collection hplace hv

/-! ### Merging -/

/-- What the overlay has where the tree that is merged in has something. -/
theorem at?_overlaid_of_taken (hi : IsCompiledTree blocks incoming) {p : Path} {v : Value}
    (hv : incoming.solid? p = some v) :
    (base.overlaid incoming).at? p = some (overlayValue (base.at? p) v) := by
  obtain ⟨hat, -⟩ := Value.solid?_eq_some_iff.mp hv
  have hne := Value.ne_nil_of_at? hat
  rw [Value.at?_of_ne_nil hne, Value.at?_of_ne_nil hne, Value.overlaid,
    Value.walk?_overlayValue_of_some hi.isTree (Value.walk?_of_at? hat), Option.bind_some]

/-- **No write changes a flag or a default preset.** -/
theorem DecideAlike.set {es : Entries}
    (h : DecideAlike blocks (.map es) (base.overlaid incoming))
    (hi : IsCompiledTree blocks incoming) (hw : Written (base.overlaid incoming) incoming p v) :
    DecideAlike blocks ((Value.map es).set p v) (base.overlaid incoming) := by
  have htaken := hw.taken.takenPath hi
  refine ⟨fun place category hplace => ?_, fun place category hplace => ?_⟩
  · rw [← h.flags place category hplace]
    exact mayOverride_congr fun path hov =>
      ⟨Value.at?_set_of_diverges (htaken.diverges_override hplace hov) _ _,
        Value.at?_set_of_diverges (htaken.diverges_override .root hov) _ _⟩
  · have hpath := TakenPath.of_collection hplace category .default
    rcases htaken.eq_or_diverges hpath with rfl | hdiv
    · -- The default presets themselves are written, as the overlay has them.
      obtain ⟨content, hcontent, rfl⟩ := hw.collection_inv hi hplace
      rw [defaultItems, defaultItems, Value.at?_set_self hpath.ne_nil,
        at?_overlaid_of_taken hi hcontent, Option.bind_some, Option.bind_some,
        Value.items?_overlayValue]
    · rw [← h.defaults place category hplace, defaultItems, defaultItems,
        Value.at?_set_of_diverges hdiv]

/-- A mapping that decides as the overlay does; this is what the writes keep. -/
def Decided (blocks : List String) (base incoming tree : Value) : Prop :=
  (∃ es, tree = .map es) ∧ DecideAlike blocks tree (base.overlaid incoming)

theorem Decided.setAll (h : Decided blocks base incoming tree)
    (hi : IsCompiledTree blocks incoming) {ws : List (Path × Value)}
    (hws : ∀ write ∈ ws, Written (base.overlaid incoming) incoming write.1 write.2) :
    Decided blocks base incoming (tree.setAll ws) := by
  refine Value.setAll_induction h fun tree write hwrite ⟨⟨es, heq⟩, halike⟩ => ?_
  subst heq
  exact ⟨⟨_, rfl⟩, halike.set hi (hws write hwrite)⟩

theorem decided_overlaid (hb : IsCompiledTree blocks base) (hi : IsCompiledTree blocks incoming) :
    Decided blocks base incoming (base.overlaid incoming) := by
  obtain ⟨es, rfl, -⟩ := hb.compiled
  obtain ⟨fs, rfl, -⟩ := hi.compiled
  exact ⟨⟨_, Value.overlayValue_map_map es fs none none⟩, .refl _ _⟩

theorem takeUnits_eq_setAll (incoming : Value) (place : Path) (tree : Value) :
    takeUnits incoming place tree = tree.setAll (unitsWrites incoming place) := by
  unfold takeUnits unitsWrites
  dsimp only
  cases incoming.solid? (place ++ ["spacing", "units"]) <;> rfl

/-- Taking over a collection is a write that is known from the overlay. -/
theorem Decided.takeCollection_eq (h : Decided blocks base incoming tree)
    (hplace : SettingPlace blocks place) {slugs : Category → List Value}
    (hslugs : slugs category = takenSlugs (base.overlaid incoming) place category)
    (origin : Origin) :
    takeCollection incoming place slugs category tree origin =
      tree.setAll (collectionWrites (base.overlaid incoming) incoming place category origin) := by
  unfold takeCollection collectionWrites
  dsimp only
  rw [hslugs]
  cases incoming.solid? (place ++ category.path ++ [origin.name]) with
  | none => rfl
  | some content =>
    dsimp only
    rw [h.2.mergedCollection_eq hplace]
    rfl

/-- So is all that is taken over at a place. -/
theorem Decided.takeScope_eq (h : Decided blocks base incoming tree)
    (hi : IsCompiledTree blocks incoming) (hplace : place ∈ settingPlaces incoming) :
    takeScope incoming (defaultSlugs (base.overlaid incoming) ["settings"]) tree place =
      tree.setAll (writesAt (base.overlaid incoming) incoming place) := by
  have hsetting := hi.settingPlace hplace
  have hwritten : ∀ write ∈ writesAt (base.overlaid incoming) incoming place,
      Written (base.overlaid incoming) incoming write.1 write.2 := fun write hwrite =>
    mem_writes_iff.mp (List.mem_flatMap.mpr ⟨place, hplace, hwrite⟩)
  have hcategory : ∀ category ∈ Category.all,
      ∀ write ∈ categoryWrites (base.overlaid incoming) incoming place category,
        Written (base.overlaid incoming) incoming write.1 write.2 :=
    fun category hcategory write hwrite => hwritten write
      (List.mem_append_right _ (List.mem_flatMap.mpr ⟨category, hcategory, hwrite⟩))
  have hunits := h.setAll hi fun write hwrite => hwritten write (List.mem_append_left _ hwrite)
  unfold takeScope
  dsimp only
  rw [takeUnits_eq_setAll, writesAt, Value.setAll_append]
  refine Value.foldl_eq_setAll hunits (fun tree htree category hmem => ?_)
    fun tree htree category hmem => htree.setAll hi (hcategory category hmem)
  refine Value.foldl_eq_setAll htree (fun tree htree origin _ => ?_)
    fun tree htree origin horigin => htree.setAll hi fun write hwrite =>
      hcategory category hmem write (List.mem_flatMap.mpr ⟨origin, horigin, hwrite⟩)
  refine htree.takeCollection_eq hsetting ?_ origin
  rw [takenSlugs, h.2.defaultSlugs_eq hsetting]

/-- **Merging is the overlay with a list of writes** that is known from the overlay. -/
theorem mergeTrees_eq_setAll (hb : IsCompiledTree blocks base)
    (hi : IsCompiledTree blocks incoming) :
    mergeTrees base incoming =
      (base.overlaid incoming).setAll (writes (base.overlaid incoming) incoming) :=
  Value.foldl_eq_setAll (decided_overlaid hb hi)
    (fun _ htree _ hplace => htree.takeScope_eq hi hplace)
    fun _ htree _ hplace => htree.setAll hi fun _ hwrite =>
      mem_writes_iff.mp (List.mem_flatMap.mpr ⟨_, hplace, hwrite⟩)

/-! ### What is written -/

variable {c : Content}

/-- The name that is given stands in the tree. -/
theorem GivesName.hasContent {collection : Path} {slug name : Value}
    (h : GivesName tree collection slug name) (htree : tree.HasContent c) : name.HasContent c := by
  obtain @⟨_, _, preset, _, hlist, -, -, -, hname, -⟩ := h
  have hpreset : preset.HasContent c :=
    (Value.hasContent_list.mp (htree.at? hlist)).2 preset (by simp)
  rw [← Value.walk?_singleton] at hname
  exact hpreset.walk? hname

theorem hasContent_withDefaultName {collection : Path} {item : Value} (htree : tree.HasContent c)
    (h : item.HasContent c) : (withDefaultName tree collection item).HasContent c := by
  have htakes := takesName_withDefaultName tree collection item
  generalize withDefaultName tree collection item = named at htakes
  cases htakes with
  | other _ => exact h
  | named _ => exact h
  | nameless _ _ => exact h
  | taken _ hname =>
    obtain ⟨hmark, hes⟩ := Value.hasContent_map.mp h
    exact Value.hasContent_map.mpr
      ⟨hmark, hes.insert (c.name _ (by decide)) (hname.hasContent htree)⟩

theorem hasContent_withDefaultNames {collection : Path} {content : Value}
    (htree : tree.HasContent c) (h : content.HasContent c) :
    (withDefaultNames tree collection content).HasContent c := by
  cases content with
  | list items mark =>
    obtain ⟨rfl, hitems⟩ := Value.hasContent_list.mp h
    refine Value.hasContent_list.mpr ⟨rfl, fun item hitem => ?_⟩
    obtain ⟨old, hold, rfl⟩ := List.mem_map.mp hitem
    exact hasContent_withDefaultName htree (hitems old hold)
  | _ => exact h

theorem hasContent_withoutSlugs {content : Value} (slugs : List Value)
    (h : content.HasContent c) : (withoutSlugs slugs content).HasContent c := by
  cases content with
  | list items mark =>
    obtain ⟨rfl, hitems⟩ := Value.hasContent_list.mp h
    rw [withoutSlugs]
    split
    · exact h
    · exact Value.hasContent_list.mpr
        ⟨rfl, fun item hitem => hitems item (List.mem_filter.mp hitem).1⟩
  | _ => exact h

theorem hasContent_mergedCollection {content : Value} (htree : tree.HasContent c)
    (h : content.HasContent c) (slugs : List Value) :
    (mergedCollection tree place slugs category origin content).HasContent c := by
  have hnamed : (if category.inheritsNames then
      withDefaultNames tree (place ++ category.path) content else content).HasContent c := by
    split
    · exact hasContent_withDefaultNames htree h
    · exact h
  unfold mergedCollection
  split
  · dsimp only
    split
    · exact hnamed
    · exact hasContent_withoutSlugs slugs hnamed
  · exact h

/-- **Merging brings nothing into a tree** but what one of the two has, whether or not they are
compiled. -/
theorem hasContent_mergeTrees (hc : c.TakesNames) (hb : base.HasContent c)
    (hi : incoming.HasContent c) : (mergeTrees base incoming).HasContent c := by
  refine mergeTrees_induction (hb.overlaid hi) (fun tree place _ units hunits htree => ?_)
    fun tree place _ category origin slugs content hcontent htree => ?_
  · exact htree.set (fun _ _ => hc _) (hi.solid? hunits)
  · exact htree.set (fun _ _ => hc _) (hasContent_mergedCollection htree (hi.solid? hcontent) slugs)

theorem isTree_mergeTrees (hb : base.IsTree) (hi : incoming.IsTree) :
    (mergeTrees base incoming).IsTree :=
  (hasContent_mergeTrees Content.takesNames_any hb.content hi.content).isTree

theorem Written.isTree (h : Written tree incoming p v) (htree : tree.IsTree)
    (hincoming : incoming.IsTree) : v.IsTree := by
  cases h with
  | units _ hv => exact hincoming.solid? hv
  | collection _ hv =>
    exact (hasContent_mergedCollection htree.content (hincoming.solid? hv).content _).isTree

/-! ### The merged tree -/

section Merged

variable (hb : IsCompiledTree blocks base) (hi : IsCompiledTree blocks incoming)

include hb hi

theorem IsCompiledTree.overlaid : IsCompiledTree blocks (base.overlaid incoming) := by
  refine ⟨(hb.isTree.content.overlaid hi.isTree.content).isTree, ?_⟩
  obtain ⟨es, rfl, hes⟩ := hb.compiled
  obtain ⟨fs, rfl, hfs⟩ := hi.compiled
  exact ⟨_, Value.overlayValue_map_map es fs none none, hes.overlay hfs⟩

/-- **Merging keeps trees compiled trees.** -/
theorem IsCompiledTree.mergeTrees : IsCompiledTree blocks (mergeTrees base incoming) := by
  refine ⟨isTree_mergeTrees hb.isTree hi.isTree, ?_⟩
  obtain ⟨es, rfl, hes⟩ := hb.compiled
  obtain ⟨fs, rfl, hfs⟩ := hi.compiled
  exact hes.mergeTrees hfs

/-- **A merged tree differs from the overlay only where something is taken over.** -/
theorem sameApart_mergeTrees : Value.SameApart (Taken incoming) (base.overlaid incoming)
    (Theme.mergeTrees base incoming) := by
  have hoverlaid := (hb.overlaid hi).isTree
  rw [mergeTrees_eq_setAll hb hi]
  refine Value.sameApart_setAll hoverlaid (fun write hwrite => (mem_writes_iff.mp hwrite).taken)
    (fun write hwrite => (mem_writes_iff.mp hwrite).isTree hoverlaid hi.isTree)
    (fun write hwrite => ?_) fun write hwrite other hother => ?_
  · obtain ⟨v, hv⟩ := (mem_writes_iff.mp hwrite).taken.exists_solid?
    rw [at?_overlaid_of_taken hi hv]
    rfl
  · exact ((mem_writes_iff.mp hwrite).taken.takenPath hi).eq_or_diverges
      ((mem_writes_iff.mp hother).taken.takenPath hi)

/-- **A merged tree has the flags and the default presets of the overlay.** -/
theorem decideAlike_mergeTrees :
    DecideAlike blocks (Theme.mergeTrees base incoming) (base.overlaid incoming) := by
  rw [mergeTrees_eq_setAll hb hi]
  exact ((decided_overlaid hb hi).setAll hi fun _ hwrite => mem_writes_iff.mp hwrite).2

/-- **What has been taken over** stands in the merged tree; its flags and default presets may be
read from the merged tree itself. -/
theorem at?_mergeTrees_of_written (h : Written (Theme.mergeTrees base incoming) incoming p v) :
    (Theme.mergeTrees base incoming).at? p = some v := by
  have hw := h.of_decideAlike hi (decideAlike_mergeTrees hb hi)
  obtain ⟨⟨es, heq⟩, -⟩ := decided_overlaid hb hi
  have htaken := hw.taken.takenPath hi
  rw [mergeTrees_eq_setAll hb hi]
  generalize hwrites : writes (base.overlaid incoming) incoming = ws
  rw [heq]
  refine Value.at?_setAll (by rw [← hwrites]; exact mem_writes_iff.mpr hw) htaken.ne_nil
    (fun write hwrite => ?_) es none
  obtain ⟨q, w⟩ := write
  rw [← hwrites] at hwrite
  have hother := mem_writes_iff.mp hwrite
  rcases (hother.taken.takenPath hi).eq_or_diverges htaken with rfl | hdiv
  · rw [hother.unique hi hw]
    exact .inl rfl
  · exact .inr hdiv

end Merged

/-! ### Runs -/

/-- **The trees of a run are compiled trees.** -/
theorem isCompiledTree_of_mem_run {steps : List Step} {theme : Theme}
    (h : theme ∈ run blocks steps) : IsCompiledTree blocks theme.tree :=
  forall_run (motive := fun theme => IsCompiledTree blocks theme.tree)
    (fun _ raw _ => ⟨isTree_compileTree blocks raw.2 _, isCompiled_compileTree blocks raw.2 _⟩)
    (fun _ _ hb hi => hb.mergeTrees hi) theme h

end ThemeSheet.Theme
