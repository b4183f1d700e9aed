import ThemeSheet.Proofs.Theme.Writes

/-!
# What a merged tree has at a path

A merged tree can be read off the two trees that went into it, path by path. Where the tree that was
merged in has units of spacing or the presets of an origin, the merged tree has these whole; theme
presets have been given names (`Theme.withDefaultNames_list_iff`) and have been filtered
(`Theme.withoutSlugs_list`), and the rest is as it was. At all other paths that do not lead into one
of these, merging is plain recursive replacement, and what counts is how far the tree that was
merged in goes along the path: to a mapping, to something else, into something else, or to a mapping
that does not have the next key.

Paths are walked from the root, so that the empty path is among them.

## Main definitions

* `Theme.IsReplaced`, plain recursive replacement as seen at one path.

## Main results

* `Value.walk?_cases`: how far a tree goes along a path;
* `Theme.mergedCollection_of_ne_theme`, `mergedCollection_theme`: what becomes of a collection;
* `Theme.isReplaced_mergeTrees`: merging is recursive replacement off what is taken over;
* `Theme.merge_pathwise`: both, for the themes of runs.
-/

namespace ThemeSheet

/-- How far a tree goes along a path: to its end, to something on the way that is no mapping, or to
a mapping that lacks the next key. -/
theorem Value.walk?_cases (q : Path) (tree : Value) :
    (∃ v, tree.walk? q = some v) ∨
      (∃ r rest v, q = r ++ rest ∧ rest ≠ [] ∧ tree.walk? r = some v ∧ v.isMap = false) ∨
      ∃ r name rest es mark, q = r ++ name :: rest ∧ tree.walk? r = some (.map es mark) ∧
        Entries.named? name es = none := by
  induction q generalizing tree with
  | nil => exact .inl ⟨tree, rfl⟩
  | cons name q ih =>
    cases tree with
    | map es mark =>
      cases hname : Entries.named? name es with
      | none => exact .inr (.inr ⟨[], name, q, es, mark, rfl, rfl, hname⟩)
      | some w =>
        have hcons : ∀ r, Value.walk? (name :: r) (.map es mark) = w.walk? r := fun r => by
          rw [walk?_cons_map, hname, Option.bind_some]
        rcases ih w with ⟨v, hv⟩ | ⟨r, rest, v, rfl, hrest, hv, hmap⟩ |
          ⟨r, other, rest, fs, m, rfl, hv, hnone⟩
        · exact .inl ⟨v, (hcons q).trans hv⟩
        · exact .inr (.inl ⟨name :: r, rest, v, rfl, hrest, (hcons r).trans hv, hmap⟩)
        · exact .inr (.inr ⟨name :: r, other, rest, fs, m, rfl, (hcons r).trans hv, hnone⟩)
    | _ => exact .inr (.inl ⟨[], name :: q, _, rfl, List.cons_ne_nil _ _, rfl, rfl⟩)

theorem Category.inheritsNames_iff (category : Category) :
    category.inheritsNames = true ↔ category = .fontSizes := by
  cases category <;> decide

namespace Theme

open ThemeSheet.Path (Diverges)
open Value (SameApart walk?)

variable {blocks : List String} {base incoming v : Value} {es : Entries} {mark : Option Mark}
  {p q r rest : Path} {name : String}

/-! ### Collections -/

/-- Collections of other origins than the theme are taken over as they are. -/
theorem mergedCollection_of_ne_theme {origin : Origin} (h : origin ≠ .theme) (tree : Value)
    (place : Path) (slugs : List Value) (category : Category) (content : Value) :
    mergedCollection tree place slugs category origin content = content := by
  rw [mergedCollection, if_neg h]

/-- Those of the theme are given names, if they are font sizes, and are filtered where the defaults
are asked for. -/
theorem mergedCollection_theme (tree : Value) (place : Path) (slugs : List Value)
    (category : Category) (content : Value) :
    mergedCollection tree place slugs category .theme content =
      let named := if category = .fontSizes then
        withDefaultNames tree (place ++ category.path) content else content
      if mayOverride tree place category then named else withoutSlugs slugs named := by
  rw [mergedCollection, if_pos rfl]
  simp only [Category.inheritsNames_iff]

/-! ### Paths that lead into nothing that is taken over -/

/-- What is taken over is there. -/
theorem Taken.exists_walk? (h : Taken incoming p) : ∃ v, incoming.walk? p = some v := by
  obtain ⟨v, hv⟩ := h.exists_solid?
  exact ⟨v, Value.walk?_of_at? (Value.solid?_eq_some_iff.mp hv).1⟩

/-- A path that leads further than the tree that is merged in is off the ways of all that is taken
over, if it leads into nothing of it. -/
theorem Taken.diverges (hp : Taken incoming p) (hq : ¬ p <+: q) (hnone : incoming.walk? q = none) :
    Diverges p q := by
  refine ⟨hq, fun ⟨rest, heq⟩ => ?_⟩
  obtain ⟨v, hv⟩ := hp.exists_walk?
  rw [← heq, Value.walk?_append, hnone] at hv
  cases hv

/-- Plain recursive replacement, as it is seen at one path. -/
structure IsReplaced (base incoming merged : Value) (q : Path) : Prop where
  /-- What is no mapping stands in the merged tree. -/
  leaf : ∀ v, incoming.walk? q = some v → v.isMap = false → merged.walk? q = some v
  /-- Nothing is below it. -/
  below : ∀ r rest v, q = r ++ rest → rest ≠ [] → incoming.walk? r = some v → v.isMap = false →
    merged.walk? q = none
  /-- What a mapping has no key for is as it was. -/
  missing : ∀ r name rest es mark, q = r ++ name :: rest → incoming.walk? r = some (.map es mark) →
    Entries.named? name es = none → merged.walk? q = base.walk? q
  /-- A mapping becomes a mapping. -/
  mapping : ∀ es mark, incoming.walk? q = some (.map es mark) →
    ∃ ms mark', merged.walk? q = some (.map ms mark')
  /-- Where there were two of them, the keys of the old one come first. -/
  keys : ∀ es mark bs mark', incoming.walk? q = some (.map es mark) →
    base.walk? q = some (.map bs mark') →
    ∃ ms, merged.walk? q = some (.map ms mark') ∧ ms.map Prod.fst =
      bs.map Prod.fst ++ (es.map Prod.fst).filter fun key => !Entries.contains key bs

section Merged

variable (hb : IsCompiledTree blocks base) (hi : IsCompiledTree blocks incoming)
  (hq : ∀ p, Taken incoming p → ¬ p <+: q)

include hb hi hq

theorem walk?_mergeTrees_of_not_map (hv : incoming.walk? q = some v) (hmap : v.isMap = false) :
    (mergeTrees base incoming).walk? q = some v := by
  have hoverlaid : (base.overlaid incoming).walk? q = some v := by
    rw [Value.overlaid, Value.walk?_overlayValue_of_some hi.isTree hv,
      Value.overlayValue_of_not_map hmap]
  exact (sameApart_mergeTrees hb hi).walk?_of_not_map hq hoverlaid hmap

/-- A mapping of the tree that is merged in becomes one with the keys of the overlay. -/
theorem exists_walk?_mergeTrees_map (hv : incoming.walk? q = some (.map es mark)) :
    ∃ fs ms mark', overlayValue (base.walk? q) (.map es mark) = .map fs mark' ∧
      (mergeTrees base incoming).walk? q = some (.map ms mark') ∧
      fs.map Prod.fst = ms.map Prod.fst := by
  have hoverlaid : (base.overlaid incoming).walk? q =
      some (overlayValue (base.walk? q) (.map es mark)) := by
    rw [Value.overlaid, Value.walk?_overlayValue_of_some hi.isTree hv, Option.bind_some]
  obtain ⟨fs, mark', hfs⟩ : ∃ fs mark',
      overlayValue (base.walk? q) (.map es mark) = .map fs mark' := by
    rcases Value.overlayValue_cases (base.walk? q) (.map es mark) with
      ⟨_, _, _, _, _, _, heq⟩ | heq
    · exact ⟨_, _, heq⟩
    · exact ⟨_, _, heq⟩
  rw [hfs] at hoverlaid
  obtain ⟨ms, hms, hkeys⟩ := (sameApart_mergeTrees hb hi).exists_walk?_map hq hoverlaid
  exact ⟨fs, ms, mark', hfs, hms, hkeys⟩

/-- **Off what is taken over, merging is plain recursive replacement.** -/
theorem isReplaced_mergeTrees : IsReplaced base incoming (mergeTrees base incoming) q := by
  refine ⟨fun v hv hmap => walk?_mergeTrees_of_not_map hb hi hq hv hmap, ?_, ?_, ?_, ?_⟩
  · rintro r rest v rfl hrest hv hmap
    have hr : ∀ p, Taken incoming p → ¬ p <+: r := fun p hp hpre =>
      hq p hp (hpre.trans (List.prefix_append r rest))
    rw [Value.walk?_append, walk?_mergeTrees_of_not_map hb hi hr hv hmap, Option.bind_some]
    obtain ⟨name, rest, rfl⟩ := List.exists_cons_of_ne_nil hrest
    cases v with
    | map => cases hmap
    | _ => rfl
  · rintro r name rest es mark rfl hv hmissing
    have hnone : incoming.walk? (r ++ name :: rest) = none := by
      rw [Value.walk?_append, hv, Option.bind_some, Value.walk?_cons_map, hmissing]
      rfl
    rw [← (sameApart_mergeTrees hb hi).walk?_eq_of_diverges fun p hp =>
        hp.diverges (hq p hp) hnone, Value.overlaid,
      Value.walk?_overlayValue_of_missing hi.isTree hv hmissing, Option.bind_some]
  · intro es mark hv
    obtain ⟨-, ms, mark', -, hms, -⟩ := exists_walk?_mergeTrees_map hb hi hq hv
    exact ⟨ms, mark', hms⟩
  · intro es mark bs mark' hv hbs
    obtain ⟨fs, ms, mark'', hfs, hms, hkeys⟩ := exists_walk?_mergeTrees_map hb hi hq hv
    have hd : Entries.Distinct es := (Value.isTree_map.mp (hi.isTree.walk? hv)).2.distinct
    rw [hbs, Value.overlayValue_map_map] at hfs
    cases hfs
    exact ⟨ms, hms, hkeys.symm.trans (keys_overlay hd bs)⟩

end Merged

/-! ### Runs -/

/-- **What a merged tree has at a path.** Where the tree that is merged in has units of spacing or
the presets of an origin, the merged tree has these whole: those of the theme with the names of its
default presets, if they are font sizes, and without the slugs of its default presets, where theme
presets may not take their place. At every path that leads into none of these, merging is plain
recursive replacement. -/
theorem merge_pathwise {steps steps' : List Step} {theme incoming : Theme}
    (htheme : theme ∈ run blocks steps) (hincoming : incoming ∈ run blocks steps') :
    let merged := (theme.merge incoming).tree
    (∀ place ∈ settingPlaces incoming.tree,
      (∀ units, incoming.tree.solid? (place ++ ["spacing", "units"]) = some units →
        merged.at? (place ++ ["spacing", "units"]) = some units) ∧
      ∀ (category : Category) (origin : Origin) (content : Value),
        incoming.tree.solid? (place ++ category.path ++ [origin.name]) = some content →
        merged.at? (place ++ category.path ++ [origin.name]) = some (
          if origin = .theme then
            let named := if category = .fontSizes then
              withDefaultNames merged (place ++ category.path) content else content
            if mayOverride merged place category then named
            else withoutSlugs (takenSlugs merged place category) named
          else content)) ∧
    ∀ q, (∀ p, Taken incoming.tree p → ¬ p <+: q) →
      IsReplaced theme.tree incoming.tree merged q := by
  intro merged
  have hb := isCompiledTree_of_mem_run htheme
  have hi := isCompiledTree_of_mem_run hincoming
  refine ⟨fun place hplace => ⟨fun units hunits => ?_, fun category origin content hcontent => ?_⟩,
    fun q hq => isReplaced_mergeTrees hb hi hq⟩
  · exact at?_mergeTrees_of_written hb hi (.units hplace hunits)
  · have hat := at?_mergeTrees_of_written hb hi (.collection hplace hcontent)
    split
    next heq =>
      subst heq
      rwa [mergedCollection_theme] at hat
    next hne => rwa [mergedCollection_of_ne_theme hne] at hat

/-- Of the custom settings of a theme one is replaced by a null, and one is kept. -/
theorem merge_pathwise_custom :
    let raw := fun custom => Value.map [(.text "settings", .map [(.text "custom", .map custom)])]
    let base : Tree := ⟨raw [(.text "gap", .map [(.text "s", .int 1)]), (.text "line", .int 2)],
      by decide⟩
    let other : Tree := ⟨raw [(.text "width", .map []), (.text "gap", .null)], by decide⟩
    let themes := run [] [.construct "default" base, .construct "theme" other]
    ∃ theme ∈ themes, ∃ incoming ∈ themes, let merged := (theme.merge incoming).tree
      merged.walk? ["settings", "custom", "gap"] = some .null ∧
      merged.walk? ["settings", "custom", "gap", "s"] = none ∧
      merged.walk? ["settings", "custom", "line"] = some (.int 2) ∧
      ∃ ms, merged.walk? ["settings", "custom"] = some (.map ms) ∧
        ms.map Prod.fst = [.text "gap", .text "line", .text "width"] := by
  intro raw base other themes
  have htheme : themes[0] ∈ themes := List.getElem_mem (by decide)
  have hincoming : themes[1] ∈ themes := List.getElem_mem (by decide)
  -- Nothing is taken over among the custom settings.
  have houtside : ∀ rest p, Taken themes[1].tree p → ¬ p <+: "settings" :: "custom" :: rest := by
    intro rest p hp
    rcases hp.takenPath (isCompiledTree_of_mem_run hincoming) with hplace | ⟨hplace, category, _⟩
    · cases hplace with
      | root => simp
      | block hmem => cases hmem
    · cases hplace with
      | root => cases category <;> simp [Category.path]
      | block hmem => cases hmem
  have hreplaced := fun rest => (merge_pathwise htheme hincoming).2 _ (houtside rest)
  refine ⟨themes[0], htheme, themes[1], hincoming, ?_, ?_, ?_, ?_⟩
  · exact (hreplaced ["gap"]).leaf .null rfl rfl
  · exact (hreplaced ["gap", "s"]).below ["settings", "custom", "gap"] ["s"] .null rfl (by simp)
      rfl rfl
  · exact (hreplaced ["line"]).missing ["settings", "custom"] "line" [] _ none rfl rfl rfl
  · exact (hreplaced []).keys _ none _ none rfl rfl

end Theme

end ThemeSheet
