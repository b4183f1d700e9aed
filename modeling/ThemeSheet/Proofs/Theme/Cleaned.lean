import ThemeSheet.Proofs.Preset.Safety
import ThemeSheet.Proofs.Theme.Cleaning
import ThemeSheet.Proofs.Tree.Decidable
import ThemeSheet.Theme.Stylesheet

/-!
# Cleaned trees compiled

Cleaning looks at a tree before it is compiled: its collections are bare lists or keyed ones, and
its scopes are those before the passes of compiling. What is compiled afterwards is another tree.
But compiling invents no styles, it moves lists of presets only from a bare collection to its
origin, and it has no custom settings to make declarations of; so what the check was asked is what
is declared.

## Main results

* `Theme.IsCleaned.passes`, `isSafeItem`, `walk?_custom`: what is found in a cleaned tree that has
  been compiled;
* `Theme.declarations_of_clean`: all that is declared has passed the check.
-/

namespace ThemeSheet.Theme

open ThemeSheet.Path (Diverges)
open Value (walk?)

variable {check : SafetyCheck} {blocks : List String} {es : Entries} {place : Path}

/-! ### Styles -/

/-- **Styles of a cleaned tree pass** once it has been compiled. -/
theorem IsCleaned.passes (h : IsCleaned check blocks es) (hplace : StylePlace place)
    {origin : Origin} {p : Property} (hp : p ∈ properties) {v : Value}
    (hv : walk? (place ++ p.path) (compileTree blocks origin (.map es)) = some v)
    (hmap : v.isMap = false) : p.Passes check v := by
  have htree : Value.IsTree (.map es) := Value.isTree_map.mpr ⟨rfl, h.trees⟩
  obtain ⟨rest, hrest⟩ : ∃ rest, place ++ p.path = "styles" :: rest := by
    cases hplace <;> exact ⟨_, rfl⟩
  rw [hrest] at hv
  have hstyle := walk?_of_compileTree_styles htree hv hmap
  rw [← hrest] at hstyle
  exact h.styles place p v hplace hp hstyle hmap

/-! ### Presets -/

/-- A list of a collection that has been keyed is the bare one, or was keyed already. -/
theorem list_of_keyed {origin name : String} {collection : Value} {items : List Value}
    {mark : Option Mark} (h : walk? [name] (keyed origin collection) = some (.list items mark)) :
    collection = .list items mark ∨ walk? [name] collection = some (.list items mark) := by
  rw [keyed] at h
  cases hkeyed : keyedCollection? origin collection with
  | none =>
    rw [hkeyed] at h
    exact .inr h
  | some v =>
    rw [hkeyed] at h
    have hv : v = .map [(.text origin, collection)] := by
      unfold keyedCollection? at hkeyed
      dsimp only at hkeyed
      split at hkeyed
      · cases hkeyed
      · exact (Option.some.inj hkeyed).symm
      · split at hkeyed
        · cases hkeyed
        · exact (Option.some.inj hkeyed).symm
    subst hv
    left
    rw [Option.getD_some, Value.walk?_singleton_map] at h
    have hmem := Entries.mem_of_named? h
    rw [List.mem_singleton, Prod.mk.injEq] at hmem
    exact hmem.2.symm

/-- **Presets of a cleaned tree are safe** once it has been compiled. -/
theorem IsCleaned.isSafeItem (h : IsCleaned check blocks es) (hplace : SettingPlace blocks place)
    {origin source : Origin} {category : Category} {item : Value}
    (hitem : item ∈ presetItems ((compileTree blocks origin (.map es)).getD place .emptyMap)
      category source) : isSafeItem check category item = .ok true := by
  have htree : Value.IsTree (.map es) := Value.isTree_map.mpr ⟨rfl, h.trees⟩
  have hne : place ++ category.path ≠ [] := by simp [hplace.ne_nil]
  rw [presetItems] at hitem
  rw [Value.at?_getD_emptyMap hplace.ne_nil (by simp), ← List.append_assoc,
    Value.at?_append hne, at?_compileTree_collection htree hplace, Value.at?_of_ne_nil hne] at hitem
  obtain ⟨q, hq, items, mark, hlist, hmem⟩ : ∃ q ∈ listPlaces category, ∃ items mark,
      walk? (place ++ q) (.map es) = some (.list items mark) ∧ item ∈ items := by
    cases hcollection : walk? (place ++ category.path) (.map es) with
    | none => rw [hcollection] at hitem; simp at hitem
    | some collection =>
      rw [hcollection, Option.map_some, Option.bind_some] at hitem
      cases hlist : walk? [source.name] (keyed origin.name collection) with
      | none => rw [hlist] at hitem; simp at hitem
      | some v =>
        rw [hlist] at hitem
        cases v with
        | list items mark =>
          change item ∈ items at hitem
          rcases list_of_keyed hlist with rfl | hkeyed
          · exact ⟨_, List.mem_cons_self, items, mark, hcollection, hitem⟩
          · refine ⟨category.path ++ [source.name], ?_, items, mark, ?_, hitem⟩
            · refine List.mem_cons_of_mem _ (List.mem_map.mpr ⟨source, ?_, rfl⟩)
              cases source <;> decide
            · rw [← List.append_assoc, Value.walk?_append, hcollection]
              exact hkeyed
        | _ => simp [Value.items?] at hitem
  exact h.presets place category q items mark hplace hq hlist item hmem

/-! ### Custom settings -/

/-- **No custom settings** are in a cleaned tree once it has been compiled. -/
theorem IsCleaned.walk?_custom (h : IsCleaned check blocks es) (hplace : SettingPlace blocks place)
    (origin : Origin) :
    walk? (place ++ ["custom"]) (compileTree blocks origin (.map es)) = none := by
  have htree : Value.IsTree (.map es) := Value.isTree_map.mpr ⟨rfl, h.trees⟩
  rw [walk?_compileTree_of_diverges htree origin (by simp),
    walk?_prepare htree hplace isUntouched_custom]
  · exact h.custom place hplace
  · intro place' category hplace'
    refine hplace'.diverges hplace category.isOwn_path (by decide) fun _ => ?_
    cases category <;> decide

/-- Without custom settings there are no declarations of them. -/
theorem customDeclarations_eq_nil {settings : Value} (h : settings.at? ["custom"] = none) :
    customDeclarations settings = .ok [] := by
  rw [customDeclarations, Value.getD, h]
  rfl

/-! ### All that is declared -/

/-- **All that a cleaned theme declares has passed the check.** At every scope of its styles the
declarations can be made and pass; at every scope of its settings the values by slug are found and
pass for every property that their category is meant for, and custom settings declare nothing. -/
theorem declarations_of_clean {table : BlockTable} {raw cleaned : Value} (hraw : raw.IsTree)
    (hclean : clean table check raw = .ok cleaned) (origin : Origin) :
    let theme := compile table.names origin cleaned
    (∀ scope ∈ styleScopes table theme.tree,
      ∃ ds, styleDeclarations (theme.partOf scope) theme.settings = .ok ds ∧
        ∀ d ∈ ds, check d.name (.text d.value) = .ok true) ∧
    ∀ scope ∈ settingScopes table theme.tree,
      (∀ category, ∃ values,
        valuesBySlug (theme.partOf scope) category Origin.allNames = .ok values ∧
          ∀ e ∈ values, ∀ property ∈ category.targets, check property e.2 = .ok true) ∧
      customDeclarations (theme.partOf scope) = .ok [] := by
  intro theme
  obtain ⟨es, rfl, hes⟩ := exists_of_clean hraw hclean
  have htree : Value.IsTree (.map es) := Value.isTree_map.mpr ⟨rfl, hes.trees⟩
  constructor
  · intro scope hscope
    have hplace := stylePlace_of_mem_styleScopes hscope
    refine exists_styleDeclarations (fun p hp v hv hmap => ?_) theme.settings
    have hne := properties_path_ne_nil p hp
    rw [partOf, Value.at?_getD_emptyMap hplace.ne_nil hne,
      Value.at?_of_ne_nil (by simp [hne])] at hv
    exact hes.passes hplace hp hv hmap
  · intro scope hscope
    obtain ⟨fs, hfs, hcompiled⟩ := isCompiled_compileTree table.names htree origin
    have htheme : theme.tree = .map fs := hfs
    rw [htheme] at hscope
    have hplace := ((mem_scopePaths_iff hcompiled.fits table).mp (List.mem_map_of_mem hscope)).1
    refine ⟨fun category => exists_valuesBySlug fun item hitem => ?_, ?_⟩
    · obtain ⟨source, -, hitem⟩ := List.mem_flatMap.mp hitem
      exact hes.isSafeItem hplace hitem
    · refine customDeclarations_eq_nil ?_
      rw [partOf, Value.at?_getD_emptyMap hplace.ne_nil (by simp), Value.at?_of_ne_nil (by simp)]
      exact hes.walk?_custom hplace origin

/-- Of two colors and two presets the ones that would end a rule are dropped, and so are the custom
settings. -/
theorem declarations_of_clean_palette :
    let preset := fun slug color => Value.map [(.text "name", .text slug),
      (.text "slug", .text slug), (.text "color", .text color)]
    let tree := fun styles settings =>
      Value.map [(.text "styles", .map [(.text "color", .map styles)]),
        (.text "settings", .map settings)]
    let raw := tree
      [(.text "text", .text "var:preset|color|ink"), (.text "background", .text "\x7d")]
      [(.text "custom", .map [(.text "gap", .text "\x7d")]), (.text "color", .map [
        (.text "palette", .list [preset "ink" "#111", preset "end" "\x7d"])])]
    let cleaned := tree [(.text "text", .text "var:preset|color|ink")]
      [(.text "color", .map [(.text "palette", .list [preset "ink" "#111"])])]
    let theme := compile [] .custom cleaned
    clean [] Css.isSafeDeclaration raw = .ok cleaned ∧
      (∃ ds, styleDeclarations (theme.partOf ⟨["styles"], some "body", none⟩) theme.settings =
          .ok ds ∧
        ∀ d ∈ ds, Css.isSafeDeclaration d.name (.text d.value) = .ok true) ∧
      (∃ values, valuesBySlug (theme.partOf ⟨["settings"], some "body", none⟩) .palette
          Origin.allNames = .ok values ∧
        ∀ e ∈ values, ∀ property ∈ Category.palette.targets,
          Css.isSafeDeclaration property e.2 = .ok true) ∧
      customDeclarations (theme.partOf ⟨["settings"], some "body", none⟩) = .ok [] := by
  intro preset tree raw cleaned theme
  have hclean : clean [] Css.isSafeDeclaration raw = .ok cleaned := by decide +kernel
  obtain ⟨hstyles, hsettings⟩ := declarations_of_clean (by decide : raw.IsTree) hclean .custom
  obtain ⟨hvalues, hcustom⟩ := hsettings ⟨["settings"], some "body", none⟩ (by decide +kernel)
  refine ⟨hclean, ?_, hvalues .palette, hcustom⟩
  exact hstyles ⟨["styles"], some "body", none⟩ (by decide +kernel)

end ThemeSheet.Theme
