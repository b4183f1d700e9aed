import ThemeSheet.Proofs.Theme.Pathwise
import ThemeSheet.Proofs.Tree.Decidable

/-!
# Merging a tree twice

The tree that is merged in has the last word wherever it has anything at all, and where it has
nothing, merging keeps what is there. So merging it once more lays it on a tree that has all of it,
and differs from the first time at most in what is taken over. That depends on flags and default
presets, which merging does not change. So the second time gives what the first one gave, down to
the order of the keys.

A theme may also be merged into itself. The second time the tree that is merged in is then another
one than the first time: its theme presets have names already, and have been filtered. Names are
given to presets without any, and what has passed the filter passes it again, so this comes to the
same.

## Main results

* `Theme.mergeTrees_congr`: on what the outcome of merging depends;
* `Theme.mergedCollection_mergedCollection`: what is taken over may be taken over again;
* `Theme.mergeTrees_again`, `mergeTrees_self_again`: the second time;
* `Theme.merge_again`: both, for the themes of runs.
-/

namespace ThemeSheet.Theme

open Value (SameApart walk?)

variable {blocks : List String} {tree base base' incoming content v : Value} {place p : Path}
  {category : Category} {origin : Origin}

/-! ### The same tree once more -/

/-- Overlays of one tree that are the same apart from what is taken over decide alike. -/
theorem decideAlike_of_sameApart (hi : IsCompiledTree blocks incoming)
    (h : SameApart (Taken incoming) (base.overlaid incoming) (base'.overlaid incoming)) :
    DecideAlike blocks (base.overlaid incoming) (base'.overlaid incoming) := by
  have hoff : ∀ q, q ≠ [] → (∀ p, Taken incoming p → Path.Diverges p q) →
      (base.overlaid incoming).at? q = (base'.overlaid incoming).at? q := by
    intro q hne hq
    rw [Value.at?_of_ne_nil hne, Value.at?_of_ne_nil hne, h.walk?_eq_of_diverges hq]
  refine ⟨fun place category hplace => mayOverride_congr fun path hov => ⟨?_, ?_⟩,
    fun place category hplace => ?_⟩
  · exact hoff _ (by simp [hplace.ne_nil]) fun p hp =>
      (hp.takenPath hi).diverges_override hplace hov
  · exact hoff _ (by simp) fun p hp => (hp.takenPath hi).diverges_override .root hov
  · have hpath := TakenPath.of_collection hplace category .default
    rw [defaultItems, defaultItems]
    by_cases htaken : Taken incoming (place ++ category.path ++ [Origin.default.name])
    · -- The default presets of both are those of the tree that is merged in.
      obtain ⟨content, hcontent⟩ := htaken.exists_solid?
      rw [at?_overlaid_of_taken hi hcontent, at?_overlaid_of_taken hi hcontent,
        Option.bind_some, Option.bind_some, Value.items?_overlayValue, Value.items?_overlayValue]
    · rw [hoff _ hpath.ne_nil fun p hp => ?_]
      refine ((hp.takenPath hi).eq_or_diverges hpath).resolve_left ?_
      rintro rfl
      exact htaken hp

/-- **What merging gives** depends only on what the overlay has apart from what is taken over. -/
theorem mergeTrees_congr (hb : IsCompiledTree blocks base) (hb' : IsCompiledTree blocks base')
    (hi : IsCompiledTree blocks incoming)
    (h : SameApart (Taken incoming) (base.overlaid incoming) (base'.overlaid incoming)) :
    mergeTrees base incoming = mergeTrees base' incoming := by
  have hsame : SameApart (Taken incoming) (mergeTrees base incoming)
      (mergeTrees base' incoming) :=
    ((sameApart_mergeTrees hb hi).symm.trans h).trans (sameApart_mergeTrees hb' hi)
  refine hsame.eq_of_walk?_eq fun p hp => ?_
  have hne := (hp.takenPath hi).ne_nil
  obtain ⟨v, hv⟩ := hp.exists_written (base.overlaid incoming)
  have hv' := hv.of_decideAlike hi (decideAlike_of_sameApart hi h)
  rw [← Value.at?_of_ne_nil hne, ← Value.at?_of_ne_nil hne,
    at?_mergeTrees_of_written hb hi (hv.of_decideAlike hi (decideAlike_mergeTrees hb hi).symm),
    at?_mergeTrees_of_written hb' hi (hv'.of_decideAlike hi (decideAlike_mergeTrees hb' hi).symm)]

/-- **Merging a tree once more changes nothing.** -/
theorem mergeTrees_again (hb : IsCompiledTree blocks base) (hi : IsCompiledTree blocks incoming) :
    mergeTrees (mergeTrees base incoming) incoming = mergeTrees base incoming := by
  refine mergeTrees_congr (hb.mergeTrees hi) hb hi ?_
  have hlaid := (sameApart_mergeTrees hb hi).overlayValue incoming
  -- On the overlay, the tree has been laid already.
  have honce : overlayValue (some (base.overlaid incoming)) incoming = base.overlaid incoming :=
    Value.overlaid_overlaid hi.isTree
  rw [honce] at hlaid
  exact hlaid.symm

/-! ### A theme merged into itself -/

/-- A preset that has been given a name needs none. -/
theorem withDefaultName_withDefaultName (tree : Value) (collection : Path) (item : Value) :
    withDefaultName tree collection (withDefaultName tree collection item) =
      withDefaultName tree collection item := by
  have htakes := takesName_withDefaultName tree collection item
  refine TakesName.withDefaultName_eq ?_
  generalize withDefaultName tree collection item = named at htakes ⊢
  cases htakes with
  | other hmap => exact .other hmap
  | named hthere => exact .named hthere
  | nameless hnew hnone => exact .nameless hnew hnone
  | taken _ _ =>
    refine .named ?_
    rw [Entries.contains, Entries.get?_insert, if_pos (Key.agrees_self _)]
    rfl

theorem withDefaultNames_withDefaultNames (tree : Value) (collection : Path) (content : Value) :
    withDefaultNames tree collection (withDefaultNames tree collection content) =
      withDefaultNames tree collection content := by
  cases content with
  | list items mark =>
    rw [withDefaultNames, withDefaultNames, List.map_map]
    refine congrArg (Value.list · mark) (List.map_congr_left fun item _ => ?_)
    exact withDefaultName_withDefaultName tree collection item
  | _ => rfl

/-- What has passed the filter passes it again. -/
theorem withoutSlugs_withoutSlugs (slugs : List Value) (content : Value) :
    withoutSlugs slugs (withoutSlugs slugs content) = withoutSlugs slugs content := by
  cases content with
  | list items mark =>
    cases hslugs : slugs.isEmpty with
    | true => simp only [withoutSlugs, hslugs, if_true]
    | false => simp [withoutSlugs, hslugs]
  | _ => rfl

/-- **What has been taken over may be taken over again.** -/
theorem mergedCollection_mergedCollection (tree : Value) (place : Path) (slugs : List Value)
    (category : Category) (origin : Origin) (content : Value) :
    mergedCollection tree place slugs category origin
        (mergedCollection tree place slugs category origin content) =
      mergedCollection tree place slugs category origin content := by
  by_cases horigin : origin = .theme
  · subst horigin
    rw [mergedCollection_theme, mergedCollection_theme]
    by_cases hsizes : category = .fontSizes
    · -- Font sizes are given names, and never filtered.
      subst hsizes
      have hmay : mayOverride tree place .fontSizes = true := rfl
      simp only [if_true, hmay, withDefaultNames_withDefaultNames]
    · simp only [if_neg hsizes]
      cases mayOverride tree place category with
      | true => rfl
      | false => exact withoutSlugs_withoutSlugs slugs content
  · rw [mergedCollection_of_ne_theme horigin, mergedCollection_of_ne_theme horigin]

/-- What has nothing to take over in a tree has nothing in the tree merged into itself. -/
theorem solid?_mergeTrees_self (hb : IsCompiledTree blocks base) (hp : TakenPath blocks p)
    (hnone : base.solid? p = none) : (mergeTrees base base).solid? p = none := by
  have hsame := sameApart_mergeTrees hb hb
  rw [Value.overlaid_self hb.isTree] at hsame
  rw [← hnone]
  refine (Value.solid?_congr ?_).symm
  rw [Value.at?_of_ne_nil hp.ne_nil, Value.at?_of_ne_nil hp.ne_nil]
  refine hsame.walk?_eq_of_diverges fun q hq =>
    ((hq.takenPath hb).eq_or_diverges hp).resolve_left ?_
  rintro rfl
  obtain ⟨v, hv⟩ := hq.exists_solid?
  cases hv.symm.trans hnone

/-- **Merging a theme into itself once more changes nothing.** -/
theorem mergeTrees_self_again (hb : IsCompiledTree blocks base) :
    mergeTrees (mergeTrees base base) (mergeTrees base base) = mergeTrees base base := by
  have hm := hb.mergeTrees hb
  rw [mergeTrees_eq_setAll hm hm, Value.overlaid_self hm.isTree]
  -- All that is written stands there already.
  refine Value.setAll_eq_self fun write hwrite => ?_
  have hw := mem_writes_iff.mp hwrite
  generalize write.1 = p at hw
  generalize write.2 = v at hw
  cases hw with
  | units _ hv => exact (Value.solid?_eq_some_iff.mp hv).1
  | @collection place category origin content hplace hv =>
    have hsetting := hm.settingPlace hplace
    have htaken := TakenPath.of_collection hsetting category origin
    cases hold : base.solid? (place ++ category.path ++ [origin.name]) with
    | none =>
      rw [solid?_mergeTrees_self hb htaken hold] at hv
      cases hv
    | some old =>
      have hmem : place ∈ settingPlaces base := by
        rw [List.append_assoc] at hold
        exact hb.mem_settingPlaces_of_solid? hsetting hold
      have hat := at?_mergeTrees_of_written hb hb (.collection hmem hold)
      cases (Value.solid?_eq_some_iff.mp hv).1.symm.trans hat
      rw [mergedCollection_mergedCollection]
      exact hat

/-! ### Runs -/

/-- **A step of merging may be repeated**, with compiled themes. -/
theorem step_merge_step {themes : List Theme}
    (h : ∀ theme ∈ themes, IsCompiledTree blocks theme.tree) (into source : Nat) :
    step blocks (step blocks themes (.merge into source)) (.merge into source) =
      step blocks themes (.merge into source) := by
  cases hinto : themes[into]? with
  | none => rw [step_merge_of_none (.inl hinto), step_merge_of_none (.inl hinto)]
  | some theme =>
    cases hsource : themes[source]? with
    | none => rw [step_merge_of_none (.inr hsource), step_merge_of_none (.inr hsource)]
    | some incoming =>
      have hb := h theme (List.mem_of_getElem? hinto)
      have hi := h incoming (List.mem_of_getElem? hsource)
      have hlength : into < themes.length := (List.getElem?_eq_some_iff.mp hinto).1
      have hmerged : (themes.set into (theme.merge incoming))[into]? =
          some (theme.merge incoming) := List.getElem?_set_self hlength
      rw [step_merge_of_some hinto hsource]
      by_cases hsame : into = source
      · -- The theme that is merged in has changed as well.
        subst hsame
        cases hinto.symm.trans hsource
        have hagain : (theme.merge theme).merge (theme.merge theme) = theme.merge theme :=
          congrArg (fun tree => { theme with tree }) (mergeTrees_self_again hb)
        rw [step_merge_of_some hmerged hmerged, List.set_set, hagain]
      · have hstays : (themes.set into (theme.merge incoming))[source]? = some incoming := by
          rw [List.getElem?_set_ne hsame, hsource]
        have hagain : (theme.merge incoming).merge incoming = theme.merge incoming :=
          congrArg (fun tree => { theme with tree }) (mergeTrees_again hb hi)
        rw [step_merge_of_some hmerged hstays, List.set_set, hagain]

/-- **Merging a tree twice is merging it once.** A tree into which another one has been merged is
not changed by merging that into it again, not even in the order of its keys; and in a run a step of
merging may be repeated, also where a theme is merged into itself. -/
theorem merge_again {steps steps' : List Step} {theme incoming : Theme}
    (htheme : theme ∈ run blocks steps) (hincoming : incoming ∈ run blocks steps') :
    ((theme.merge incoming).merge incoming).tree = (theme.merge incoming).tree ∧
      ∀ into source, run blocks (steps ++ [.merge into source, .merge into source]) =
        run blocks (steps ++ [.merge into source]) := by
  refine ⟨mergeTrees_again (isCompiledTree_of_mem_run htheme)
    (isCompiledTree_of_mem_run hincoming), fun into source => ?_⟩
  rw [run_append, run_append]
  exact step_merge_step (fun _ h => isCompiledTree_of_mem_run h) into source

/-- Font sizes that take the name of a default one, twice, and colors that are filtered, twice. -/
theorem merge_again_sizes :
    let preset := fun slug key value rest =>
      Value.map ((.text "slug", .text slug) :: (.text key, .text value) :: rest)
    let raw := fun colors sizes => Value.map [(.text "settings", .map [
      (.text "color", .map colors), (.text "typography", .map [(.text "fontSizes", .list sizes)])])]
    let shown : Tree := ⟨raw [(.text "palette", .list [preset "red" "color" "#f00" []]),
      (.text "defaultPalette", .bool true)]
      [preset "big" "size" "2em" [(.text "name", .text "Big")]], by decide⟩
    let other : Tree := ⟨raw [(.text "palette", .list [preset "red" "color" "#e00" []])]
      [preset "big" "size" "3em" []], by decide⟩
    let theme := construct [] "default" shown
    let incoming := construct [] "theme" other
    let merged := ((theme.merge incoming).merge incoming).tree
    merged = (theme.merge incoming).tree ∧
      merged.at? ["settings", "color", "palette", "theme"] = some (.list []) ∧
      merged.at? ["settings", "typography", "fontSizes", "theme"] =
        some (.list [preset "big" "size" "3em" [(.text "name", .text "Big")]]) := by
  intro preset raw shown other theme incoming merged
  have hshown : theme ∈ run [] [.construct "default" shown] := List.mem_singleton_self _
  have hother : incoming ∈ run [] [.construct "theme" other] := List.mem_singleton_self _
  exact ⟨(merge_again hshown hother).1, by decide +kernel, by decide +kernel⟩

end ThemeSheet.Theme
