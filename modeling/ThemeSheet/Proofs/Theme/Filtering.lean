import ThemeSheet.Proofs.Theme.Pathwise
import ThemeSheet.Proofs.Tree.Decidable

/-!
# Which theme presets a merged tree keeps

A category of presets may have a flag that asks for the default presets: that of the place counts,
and where it has none that of the root. If the flag is set, theme presets may not take the place of
default ones, and of a list of theme presets those are kept that have a slug and whose slug is none
of the default slugs, at the root or at the place. Flag and slugs are those of the merged tree.

Slugs are any values, and whether one is among others is asked as of the members of a list: values
are looked for by equality, but not-a-number, which is equal to nothing, is found where it stands
itself.

## Main definitions

* `Value.isAmong`, membership in a list;
* `Theme.flagAt?`, the flag that counts at a place.

## Main results

* `Theme.mayOverride_unless`, `withoutSlugs_list`: the decision and the filter in these terms;
* `Theme.list_of_mergeTrees`: lists of other origins come from one of the two trees;
* `Theme.merge_theme_lists`: what a merged tree keeps, for the themes of runs.
-/

namespace ThemeSheet

namespace Value

/-- Whether a value is among some others: equal to one of them, or the same not-a-number. -/
def isAmong (v : Value) (vs : List Value) : Bool :=
  vs.any fun w => v.equals w || (v.isNotANumber && v.same w)

theorem sameMember_eq_isAmong (v : Value) (vs : List Value) : v.sameMember vs = v.isAmong vs := by
  refine congrArg vs.any (funext fun w => ?_)
  rw [equals]
  cases v.isNotANumber <;> simp

end Value

namespace Theme

variable {blocks : List String} {tree base incoming : Value} {place path : Path}
  {category : Category} {origin : Origin} {items : List Value}

/-! ### The decision and the filter -/

/-- The flag that counts at a place: its own, or that of the root if it has none. -/
def flagAt? (tree : Value) (place path : Path) : Option Value :=
  (tree.solid? (place ++ path)).or (tree.solid? ("settings" :: path))

/-- Theme presets may take the place of default ones, unless the flag is set. -/
theorem mayOverride_unless (h : category.override = .unless path) (tree : Value) (place : Path) :
    mayOverride tree place category = !(flagAt? tree place path).any Value.truthy := by
  rw [mayOverride, h, flagAt?]
  dsimp only
  cases tree.solid? (place ++ path) with
  | some flag => rfl
  | none =>
    rw [Option.none_or]
    cases tree.solid? ("settings" :: path) <;> rfl

/-- The items that have a slug which is not among the given ones. -/
def freshItems (slugs items : List Value) : List Value :=
  items.filter fun item => (item.entryNamed? "slug").any fun slug => !slug.isAmong slugs

theorem withoutSlugs_list (slugs items : List Value) : withoutSlugs slugs (.list items) =
    .list (if slugs = [] then items else freshItems slugs items) := by
  have hfresh : hasFreshSlug slugs =
      fun item => (item.entryNamed? "slug").any fun slug => !slug.isAmong slugs := by
    funext item
    rw [hasFreshSlug]
    cases item.entryNamed? "slug" with
    | none => rfl
    | some slug =>
      dsimp only
      rw [Value.sameMember_eq_isAmong]
      rfl
  rw [withoutSlugs, freshItems, ← hfresh]
  cases slugs <;> rfl

/-! ### Merged trees -/

/-- **A list of theme presets in a merged tree**, of a category that has a flag. -/
theorem at?_mergeTrees_theme_list (hb : IsCompiledTree blocks base)
    (hi : IsCompiledTree blocks incoming) (hplace : place ∈ settingPlaces incoming)
    (hov : category.override = .unless path)
    (hlist : incoming.at? (place ++ category.path ++ [Origin.theme.name]) = some (.list items)) :
    (mergeTrees base incoming).at? (place ++ category.path ++ [Origin.theme.name]) =
      some (if (flagAt? (mergeTrees base incoming) place path).any Value.truthy then
        withoutSlugs (takenSlugs (mergeTrees base incoming) place category) (.list items)
      else .list items) := by
  have hsizes : category ≠ .fontSizes := by
    rintro rfl
    cases hov
  rw [at?_mergeTrees_of_written hb hi
    (.collection hplace (Value.solid?_eq_some_iff.mpr ⟨hlist, rfl⟩)), mergedCollection_theme,
    if_neg hsizes, mayOverride_unless hov]
  cases (flagAt? (mergeTrees base incoming) place path).any Value.truthy <;> rfl

/-- **A list of another origin than the theme** is a list of the tree that was merged in or one of
the tree it was merged into. -/
theorem list_of_mergeTrees (hb : IsCompiledTree blocks base) (hi : IsCompiledTree blocks incoming)
    (hplace : SettingPlace blocks place) (horigin : origin ≠ .theme)
    (hlist : (mergeTrees base incoming).at? (place ++ category.path ++ [origin.name]) =
      some (.list items)) :
    incoming.at? (place ++ category.path ++ [origin.name]) = some (.list items) ∨
      base.at? (place ++ category.path ++ [origin.name]) = some (.list items) := by
  have hne : place ++ category.path ++ [origin.name] ≠ [] := by simp
  cases hsolid : incoming.solid? (place ++ category.path ++ [origin.name]) with
  | some content =>
    have hsolid' := hsolid
    rw [List.append_assoc] at hsolid'
    have hmem := hi.mem_settingPlaces_of_solid? hplace hsolid'
    have hat := at?_mergeTrees_of_written hb hi (.collection hmem hsolid)
    rw [mergedCollection_of_ne_theme horigin, hlist] at hat
    cases hat
    exact .inl (Value.solid?_eq_some_iff.mp hsolid).1
  | none =>
    -- Nothing is taken over here, so the path is seen by plain replacement.
    have htaken := TakenPath.of_collection hplace category origin
    have houtside : ∀ p, Taken incoming p → ¬ p <+: place ++ category.path ++ [origin.name] := by
      intro p hp hpre
      rcases (hp.takenPath hi).eq_or_diverges htaken with rfl | hdiv
      · obtain ⟨v, hv⟩ := hp.exists_solid?
        cases hv.symm.trans hsolid
      · exact hdiv.1 hpre
    have hreplaced := isReplaced_mergeTrees hb hi houtside
    rw [Value.at?_of_ne_nil hne] at hlist ⊢
    rw [Value.at?_of_ne_nil hne]
    rcases Value.walk?_cases (place ++ category.path ++ [origin.name]) incoming with
      ⟨v, hv⟩ | ⟨r, rest, v, heq, hrest, hv, hmap⟩ | ⟨r, name, rest, es, mark, heq, hv, hmissing⟩
    · have hnull : v = .null := by
        rw [Value.solid?_eq, Value.at?_of_ne_nil hne, hv] at hsolid
        cases v <;> first | rfl | cases hsolid
      subst hnull
      rw [hreplaced.leaf .null hv rfl] at hlist
      cases hlist
    · rw [hreplaced.below r rest v heq hrest hv hmap] at hlist
      cases hlist
    · rw [hreplaced.missing r name rest es mark heq hv hmissing] at hlist
      exact .inr hlist

/-! ### Runs -/

/-- **Which presets a merged tree keeps.** At the places of the tree that is merged in, a list of
theme presets is kept as it is, unless the flag of its category is set in the merged tree and there
are default presets, at the root or at the place. Then those items are kept that have a slug which
is not among the default slugs. Lists of the other origins are never filtered. -/
theorem merge_theme_lists {steps steps' : List Step} {theme incoming : Theme}
    (htheme : theme ∈ run blocks steps) (hincoming : incoming ∈ run blocks steps')
    (hplace : place ∈ settingPlaces incoming.tree) :
    let merged := (theme.merge incoming).tree
    (∀ (category : Category) (path : Path) (items : List Value),
      category.override = .unless path →
      incoming.tree.at? (place ++ category.path ++ [Origin.theme.name]) = some (.list items) →
      let flag := (merged.solid? (place ++ path)).or (merged.solid? ("settings" :: path))
      let slugs := defaultSlugs merged ["settings"] category ++ defaultSlugs merged place category
      merged.at? (place ++ category.path ++ [Origin.theme.name]) = some (.list
        (if flag.any Value.truthy = true ∧ slugs ≠ [] then
          items.filter fun item => (item.entryNamed? "slug").any fun slug => !slug.isAmong slugs
        else items))) ∧
    ∀ (category : Category) (origin : Origin) (items : List Value), origin ≠ .theme →
      (incoming.tree.at? (place ++ category.path ++ [origin.name]) = some (.list items) →
        merged.at? (place ++ category.path ++ [origin.name]) = some (.list items)) ∧
      (merged.at? (place ++ category.path ++ [origin.name]) = some (.list items) →
        incoming.tree.at? (place ++ category.path ++ [origin.name]) = some (.list items) ∨
          theme.tree.at? (place ++ category.path ++ [origin.name]) = some (.list items)) := by
  intro merged
  have hb := isCompiledTree_of_mem_run htheme
  have hi := isCompiledTree_of_mem_run hincoming
  refine ⟨fun category path items hov hlist => ?_, fun category origin items horigin =>
    ⟨fun hlist => ?_, list_of_mergeTrees hb hi (hi.settingPlace hplace) horigin⟩⟩
  · intro flag slugs
    have hat := at?_mergeTrees_theme_list hb hi hplace hov hlist
    have hflag : flagAt? (mergeTrees theme.tree incoming.tree) place path = flag := rfl
    have hslugs : takenSlugs (mergeTrees theme.tree incoming.tree) place category = slugs := rfl
    rw [hflag, hslugs, withoutSlugs_list] at hat
    refine hat.trans (congrArg some ?_)
    by_cases hset : flag.any Value.truthy = true
    · by_cases hempty : slugs = []
      · rw [if_pos hset, if_pos hempty, if_neg fun h => h.2 hempty]
      · rw [if_pos hset, if_neg hempty, if_pos ⟨hset, hempty⟩]
        rfl
    · rw [if_neg hset, if_neg fun h => hset h.1]
  · have hsolid := Value.solid?_eq_some_iff.mpr ⟨hlist, rfl⟩
    have hat := at?_mergeTrees_of_written hb hi (.collection hplace hsolid)
    rwa [mergedCollection_of_ne_theme horigin] at hat

/-- The defaults have a red and ask for it, so the theme's goes, and so does an item without a
slug. -/
theorem merge_theme_lists_palette :
    let preset := fun slug color =>
      Value.map [(.text "slug", .text slug), (.text "color", .text color)]
    let raw := fun colors => Value.map [(.text "settings", .map [(.text "color", .map colors)])]
    let shown : Tree := ⟨raw [(.text "palette", .list [preset "red" "#f00"]),
      (.text "defaultPalette", .bool true)], by decide⟩
    let other : Tree := ⟨raw [(.text "palette", .list [preset "red" "#e00",
      .map [(.text "color", .text "#0f0")], preset "blue" "#00f"])], by decide⟩
    let merged := (construct [] "default" shown).merge (construct [] "theme" other)
    merged.tree.at? ["settings", "color", "palette", "theme"] =
      some (.list [preset "blue" "#00f"]) := by
  intro preset raw shown other merged
  have hshown : construct [] "default" shown ∈ run [] [.construct "default" shown] :=
    List.mem_singleton_self _
  have hother : construct [] "theme" other ∈ run [] [.construct "theme" other] :=
    List.mem_singleton_self _
  have hplace : ["settings"] ∈ settingPlaces (construct [] "theme" other).tree := by
    decide +kernel
  refine ((merge_theme_lists hshown hother hplace).1 .palette _ _ rfl rfl).trans ?_
  decide +kernel

/-- Comparing slugs by equality alone would keep a preset whose slug is not-a-number, because that
is equal to nothing. It goes nevertheless where the defaults have that slug. -/
theorem merge_theme_lists_not_by_equality :
    let preset := fun color =>
      Value.map [(.text "slug", .float (.nan false)), (.text "color", .text color)]
    let raw := fun colors => Value.map [(.text "settings", .map [(.text "color", .map colors)])]
    let shown : Tree := ⟨raw [(.text "palette", .list [preset "#f00"]),
      (.text "defaultPalette", .bool true)], by decide⟩
    let other : Tree := ⟨raw [(.text "palette", .list [preset "#e00"])], by decide⟩
    let incoming := construct [] "theme" other
    let merged := ((construct [] "default" shown).merge incoming).tree
    let slugs := defaultSlugs merged ["settings"] .palette ++
      defaultSlugs merged ["settings"] .palette
    ["settings"] ∈ settingPlaces incoming.tree ∧
      incoming.tree.at? ["settings", "color", "palette", "theme"] =
        some (.list [preset "#e00"]) ∧
      merged.solid? ["settings", "color", "defaultPalette"] = some (.bool true) ∧ slugs ≠ [] ∧
      merged.at? ["settings", "color", "palette", "theme"] ≠ some (.list
        ([preset "#e00"].filter fun item =>
          (item.entryNamed? "slug").any fun slug => !slugs.any slug.equals)) := by
  decide +kernel

end Theme

end ThemeSheet
