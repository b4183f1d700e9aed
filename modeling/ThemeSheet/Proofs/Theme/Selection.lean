import ThemeSheet.Proofs.Theme.StaleBlocks
import ThemeSheet.Proofs.Theme.Writes
import ThemeSheet.Proofs.Tree.Removing

/-!
# Some origins, some sections

Whoever asks for the presets of some origins gets what they would get of all origins, if the tree
had none but those. So the origins that are not named can be taken out of the tree first: their
collections are removed from every collection of every scope of settings. Custom properties, utility
classes and filters each look the origins up for themselves, and each of them finds the same in the
two trees. Nothing else of a tree is read below a collection, so the styles do not change either.

A stylesheet of several sections is that of its sections one after the other, in the order of the
stylesheet and each of them once, whatever the order in which they are named and however often.

## Main definitions

* `Theme.restricted`, a theme with the presets of the named origins alone.

## Main results

* `Theme.Made.isTree`: themes that are constructed and merged have trees;
* `Theme.settingScopes_restricted`, `Theme.presetItems_restricted`: what is left of the settings;
* `Theme.sectionPieces_restricted`, `Theme.filters_restricted`: what is made of it;
* `Theme.stylesheet_eq_join`: a stylesheet section by section;
* `Theme.selection`: selecting is restricting.
-/

namespace ThemeSheet

open ThemeSheet.Path (Diverges)

/-- Presets that are none of the chosen ones may as well be missing. -/
theorem flatMap_filter_eq {α β : Type} {keep : α → Bool} {f g : α → List β} {l : List α}
    (h : ∀ a ∈ l, g a = if keep a then f a else []) : (l.filter keep).flatMap f = l.flatMap g := by
  induction l with
  | nil => rfl
  | cons a l ih =>
    obtain ⟨ha, hl⟩ := List.forall_mem_cons.mp h
    rw [List.filter_cons, List.flatMap_cons, ha, ← ih hl]
    split <;> rfl

theorem Origin.ordered_allNames : Origin.ordered Origin.allNames = Origin.all := by
  decide

/-- Of names only those count that are there, in whatever order and however often. -/
theorem StyleSection.ordered_congr {names names' : List String}
    (h : ∀ name, name ∈ names ↔ name ∈ names') :
    StyleSection.ordered names = StyleSection.ordered names' := by
  refine List.filter_congr fun part _ => ?_
  rw [Bool.eq_iff_iff, List.contains_iff_mem, List.contains_iff_mem, h]

theorem StyleSection.ordered_singleton (part : StyleSection) :
    StyleSection.ordered [part.name] = [part] := by
  cases part <;> decide

/-! ### Scopes after a removal -/

namespace Scope

theorem entryNames_cons (k : Key) (v : Value) (es : Entries) (mark : Option Mark) :
    entryNames (.map ((k, v) :: es) mark) =
      entryNames (.map [(k, .null)]) ++ entryNames (.map es mark) := by
  cases k <;> rfl

/-- Mappings with the same keys have the same names. -/
theorem entryNames_congr {es fs : Entries} (h : fs.map Prod.fst = es.map Prod.fst)
    (mark : Option Mark) : entryNames (.map fs mark) = entryNames (.map es mark) := by
  induction es generalizing fs with
  | nil => rw [List.map_eq_nil_iff.mp h]
  | cons e es ih =>
    obtain ⟨⟨k, v⟩, rest, rfl, hk, hrest⟩ := List.map_eq_cons_iff.mp h
    obtain ⟨l, w⟩ := e
    cases hk
    rw [entryNames_cons k v rest, entryNames_cons k w es, ih hrest]

/-- A change that keeps the keys of a mapping keeps its names. -/
theorem entryNames_onMap {f : Entries → Entries} (h : ∀ es, (f es).map Prod.fst = es.map Prod.fst)
    (v : Value) : entryNames (v.onMap f) = entryNames v := by
  cases v with
  | map es mark => exact entryNames_congr (h es) mark
  | _ => rfl

end Scope

/-- After removing an own entry of a place the settings are still a mapping, if they were one, and
their blocks have the same names. -/
theorem exists_unset_eq_modifyMap {blocks : List String} {place q : Path}
    (hplace : SettingPlace blocks place) (hq : q.isOwn = true) (es : Entries)
    (mark : Option Mark) : ∃ f : Entries → Entries,
      (Value.map es mark).unset (place ++ q) = .map (Entries.modifyMap "settings" f es) mark ∧
        ∀ ss, (Entries.named? "blocks" (f ss)).map Scope.entryNames =
          (Entries.named? "blocks" ss).map Scope.entryNames := by
  obtain ⟨name, rest, rfl, hname⟩ := Path.exists_of_isOwn hq
  cases hplace with
  | root =>
    refine ⟨Value.unsetEntries (name :: rest), rfl, fun ss => ?_⟩
    have hdiv : Diverges (name :: rest) ["blocks"] := by simp [hname]
    have hsame := Value.walk?_unsetEntries_of_diverges hdiv ss none
    rw [Value.walk?_singleton_map, Value.walk?_singleton_map] at hsame
    rw [hsame]
  | @block b _ =>
    refine ⟨Value.unsetEntries ("blocks" :: b :: name :: rest), rfl, fun ss => ?_⟩
    rw [Value.unsetEntries_cons_cons, Entries.named?_modifyMap, if_pos rfl, Option.map_map]
    refine congrArg (Option.map · _) (funext fun v => ?_)
    exact Scope.entryNames_onMap (fun bs => Entries.keys_modifyMap b _ bs) v

/-- **Removing own entries of a place keeps the scopes of settings**, in their order. -/
theorem settingScopes_unset {blocks : List String} {place q : Path} (table : BlockTable)
    (hplace : SettingPlace blocks place) (hq : q.isOwn = true) (tree : Value) :
    settingScopes table (tree.unset (place ++ q)) = settingScopes table tree := by
  cases tree with
  | map es mark =>
    obtain ⟨f, hunset, hblocks⟩ := exists_unset_eq_modifyMap hplace hq es mark
    rw [hunset, settingScopes, settingScopes, Value.entryNamed?, Value.entryNamed?,
      Entries.named?_modifyMap, if_pos rfl]
    cases Entries.named? "settings" es with
    | none => rfl
    | some v =>
      cases v with
      | map ss m =>
        have hnames := hblocks ss
        rw [Option.map_some, Value.onMap]
        dsimp only
        cases hb : Entries.named? "blocks" ss with
        | none =>
          rw [hb, Option.map_none, Option.map_eq_none_iff] at hnames
          rw [hnames]
        | some blocks =>
          rw [hb, Option.map_some, Option.map_eq_some_iff] at hnames
          obtain ⟨blocks', hb', hnames⟩ := hnames
          simp only [hb', hnames]
      | _ => rfl
  | _ => rfl

namespace Theme

open Schema (Fits)

variable {blocks origins : List String} {table : BlockTable} {theme : Theme} {scope : Scope}
  {es : Entries}

/-! ### Restricting a theme -/

/-- **Themes that are constructed and merged have trees.** -/
theorem Made.isTree (h : Made theme) : theme.tree.IsTree := by
  induction h with
  | construct blocks origin h => exact isTree_compileTree blocks h _
  | merge _ _ ih ih' => exact isTree_mergeTrees ih ih'

/-- The paths of the collections of a tree that belong to origins which are not named: every such
origin, below every collection of every scope of settings. -/
def unnamedCollections (origins : List String) (tree : Value) : List Path :=
  (settingScopes [] tree).flatMap fun scope =>
    (collectionPaths scope).flatMap fun path =>
      (Origin.all.filter fun origin => !origins.contains origin.name).map fun origin =>
        path ++ [origin.name]

/-- A theme with the presets of the named origins alone: the entries of the others are removed from
every collection. -/
def restricted (origins : List String) (theme : Theme) : Theme :=
  { theme with tree := theme.tree.unsetAll (unnamedCollections origins theme.tree) }

theorem mem_unnamedCollections_iff {tree : Value} {p : Path} :
    p ∈ unnamedCollections origins tree ↔ ∃ scope ∈ settingScopes [] tree, ∃ category origin,
      Origin.name origin ∉ origins ∧ p = scope.path ++ Category.path category ++ [origin.name] := by
  simp only [unnamedCollections, collectionPaths, List.mem_flatMap, List.mem_map, List.mem_filter,
    Bool.not_eq_true', List.contains_eq_mem, decide_eq_false_iff_not]
  constructor
  · rintro ⟨scope, hscope, _, ⟨category, -, rfl⟩, origin, ⟨-, hname⟩, rfl⟩
    exact ⟨scope, hscope, category, origin, hname, rfl⟩
  · rintro ⟨scope, hscope, category, origin, hname, rfl⟩
    exact ⟨scope, hscope, _, ⟨category, by cases category <;> decide, rfl⟩, origin,
      ⟨by cases origin <;> decide, hname⟩, rfl⟩

section Restricted

variable (htree : theme.tree = .map es)
  (hfits : Fits (Schema.wholeTheme blocks elementNames) es)
include htree hfits

theorem settingPlace_of_mem (h : scope ∈ settingScopes table theme.tree) :
    SettingPlace blocks scope.path := by
  rw [htree] at h
  exact ((mem_scopePaths_iff hfits table).mp (List.mem_map_of_mem h)).1

theorem takenPath_of_mem_unnamed {p : Path} (h : p ∈ unnamedCollections origins theme.tree) :
    TakenPath blocks p := by
  obtain ⟨scope, hscope, category, origin, -, rfl⟩ := mem_unnamedCollections_iff.mp h
  exact .of_collection (settingPlace_of_mem htree hfits hscope) category origin

/-- What is off the ways of all collections is the same. -/
theorem at?_restricted {q : Path} (hq : ∀ p, TakenPath blocks p → Diverges p q) :
    (theme.restricted origins).tree.at? q = theme.tree.at? q :=
  Value.at?_unsetAll_of_diverges
    (fun p hp => hq p (takenPath_of_mem_unnamed htree hfits hp)) theme.tree

/-- Nothing changes outside the settings. -/
theorem at?_restricted_of_ne (origins : List String) {name : String} (hname : name ≠ "settings")
    (rest : Path) :
    (theme.restricted origins).tree.at? (name :: rest) = theme.tree.at? (name :: rest) := by
  refine at?_restricted htree hfits fun p hp => ?_
  have hdiv := (hp.diverges_of_ne hname).append [] rest
  rwa [List.append_nil] at hdiv

/-- **The scopes of settings are the same**, in the same order. -/
theorem settingScopes_restricted (table : BlockTable) (origins : List String) :
    settingScopes table (theme.restricted origins).tree = settingScopes table theme.tree := by
  refine Value.unsetAll_induction (motive := fun tree => settingScopes table tree = _) rfl
    fun tree p hp h => ?_
  obtain ⟨scope, hscope, category, origin, -, rfl⟩ := mem_unnamedCollections_iff.mp hp
  have hplace := settingPlace_of_mem htree hfits hscope
  rw [List.append_assoc,
    settingScopes_unset table hplace (Path.isOwn_append category.isOwn_path _), h]

/-- What a scope of settings has off the ways of all collections is the same. -/
theorem at?_partOf_restricted (h : scope ∈ settingScopes table theme.tree) {q : Path}
    (hq : ∀ p, TakenPath blocks p → Diverges p (scope.path ++ q)) (hne : q ≠ []) :
    ((theme.restricted origins).partOf scope).at? q = (theme.partOf scope).at? q := by
  have hplace := settingPlace_of_mem htree hfits h
  rw [partOf, partOf, Value.at?_getD_emptyMap hplace.ne_nil hne,
    Value.at?_getD_emptyMap hplace.ne_nil hne, at?_restricted htree hfits hq]

variable (hvalue : theme.tree.IsTree)
include hvalue

/-- **The presets of a restricted theme** are those of the named origins, and no others. -/
theorem presetItems_restricted (h : scope ∈ settingScopes table theme.tree) (category : Category)
    (origin : Origin) : presetItems ((theme.restricted origins).partOf scope) category origin =
      if origins.contains origin.name then presetItems (theme.partOf scope) category origin
      else [] := by
  have hplace := settingPlace_of_mem htree hfits h
  have hne : category.path ++ [origin.name] ≠ [] := by simp
  have hpath := TakenPath.of_collection hplace category origin
  rw [presetItems, presetItems]
  split
  next hnamed =>
    -- No collection that is removed is this one, because its origin is named.
    have hsame :
        (theme.restricted origins).tree.at? (scope.path ++ category.path ++ [origin.name]) =
          theme.tree.at? (scope.path ++ category.path ++ [origin.name]) := by
      refine Value.at?_unsetAll_of_diverges (fun p hp => ?_) theme.tree
      refine ((takenPath_of_mem_unnamed htree hfits hp).eq_or_diverges hpath).resolve_left ?_
      rintro rfl
      obtain ⟨other, hother, _, _, hunnamed, heq⟩ := mem_unnamedCollections_iff.mp hp
      obtain ⟨-, -, rfl⟩ := hplace.collection_inj (settingPlace_of_mem htree hfits hother) heq
      exact hunnamed (List.contains_iff_mem.mp hnamed)
    rw [partOf, partOf, Value.at?_getD_emptyMap hplace.ne_nil hne,
      Value.at?_getD_emptyMap hplace.ne_nil hne, ← List.append_assoc, hsame]
  next hunnamed =>
    have hscope : ∃ other ∈ settingScopes [] theme.tree, other.path = scope.path := by
      have hmem := List.mem_map_of_mem (f := (·.path)) h
      rw [htree] at hmem ⊢
      exact List.mem_map.mp
        ((mem_scopePaths_iff hfits []).mpr ((mem_scopePaths_iff hfits table).mp hmem))
    obtain ⟨other, hother, heq⟩ := hscope
    have hmem : scope.path ++ category.path ++ [origin.name] ∈
        unnamedCollections origins theme.tree :=
      mem_unnamedCollections_iff.mpr ⟨other, hother, category, origin,
        fun hname => hunnamed (List.contains_iff_mem.mpr hname), by rw [heq]⟩
    have hnone : (theme.restricted origins).tree.at?
        (scope.path ++ category.path ++ [origin.name]) = none :=
      Value.at?_unsetAll_of_mem hvalue hmem fun p hp =>
        (takenPath_of_mem_unnamed htree hfits hp).eq_or_diverges hpath
    rw [partOf, Value.at?_getD_emptyMap hplace.ne_nil hne, ← List.append_assoc, hnone]
    rfl

/-- What is read of the lists of the named origins is what is read of all lists that are left. -/
theorem flatMap_presetItems_restricted {β : Type} (read : List Value → List β)
    (hread : read [] = []) (h : scope ∈ settingScopes table theme.tree) (category : Category) :
    (Origin.ordered origins).flatMap
        (fun origin => read (presetItems (theme.partOf scope) category origin)) =
      (Origin.ordered Origin.allNames).flatMap fun origin =>
        read (presetItems ((theme.restricted origins).partOf scope) category origin) := by
  rw [Origin.ordered_allNames]
  refine flatMap_filter_eq fun origin _ => ?_
  rw [presetItems_restricted htree hfits hvalue h, apply_ite read, hread]

theorem presetsOf_restricted (h : scope ∈ settingScopes table theme.tree) (category : Category) :
    presetsOf (theme.partOf scope) category origins =
      presetsOf ((theme.restricted origins).partOf scope) category Origin.allNames :=
  flatMap_presetItems_restricted htree hfits hvalue (List.filterMap asPreset?) rfl h category

theorem duotonePresets_restricted (h : scope ∈ settingScopes table theme.tree) :
    duotonePresets (theme.partOf scope) origins =
      duotonePresets ((theme.restricted origins).partOf scope) Origin.allNames :=
  flatMap_presetItems_restricted htree hfits hvalue (List.filterMap Value.entries?) rfl h .duotone

/-! ### What is made of it -/

/-- The custom properties of a scope for the named origins are those of all that are left. -/
theorem scopeVariables_restricted (h : scope ∈ settingScopes table theme.tree) :
    theme.scopeVariables origins scope =
      (theme.restricted origins).scopeVariables Origin.allNames scope := by
  have hplace := settingPlace_of_mem htree hfits h
  have hcustom : (theme.partOf scope).at? ["custom"] =
      ((theme.restricted origins).partOf scope).at? ["custom"] := by
    refine (at?_partOf_restricted htree hfits h (fun p hp => ?_) (List.cons_ne_nil _ _)).symm
    exact hp.diverges_own hplace rfl (by decide) fun category => by cases category <;> decide
  rw [scopeVariables, scopeVariables, variableDeclarations_congr
    (presetsOf_restricted htree hfits hvalue h) hcustom]

/-- The utility classes of a scope for the named origins are those of all that are left. -/
theorem scopeClasses_restricted (h : scope ∈ settingScopes table theme.tree) :
    theme.scopeClasses origins scope =
      (theme.restricted origins).scopeClasses Origin.allNames scope := by
  rw [scopeClasses, scopeClasses]
  cases scope.selector with
  | none => rfl
  | some selector =>
    simp only [presetRules_congr (presetsOf_restricted htree hfits hvalue h)]

omit hvalue

/-- Whether there is a block gap is not a matter of presets. -/
theorem at?_blockGap_restricted (origins : List String) :
    (theme.restricted origins).tree.at? ["settings", "spacing", "blockGap"] =
      theme.tree.at? ["settings", "spacing", "blockGap"] :=
  at?_restricted htree hfits fun _ hp => hp.diverges_own .root (q := ["spacing", "blockGap"]) rfl
    (by decide) fun category => by cases category <;> decide

/-- What is made of the styles of a scope is the same. -/
theorem scopeStyles_restricted (h : scope ∈ styleScopes table theme.tree) :
    theme.scopeStyles scope = (theme.restricted origins).scopeStyles scope := by
  have hgap := at?_blockGap_restricted htree hfits origins
  have hsettings : theme.settings.at? ["spacing", "blockGap"] =
      (theme.restricted origins).settings.at? ["spacing", "blockGap"] := by
    rw [at?_settings _ (List.cons_ne_nil _ _), at?_settings _ (List.cons_ne_nil _ _), hgap]
  have hpart : theme.partOf scope = (theme.restricted origins).partOf scope := by
    obtain ⟨rest, hpath⟩ := (stylePlace_of_mem_styleScopes h).exists_eq_cons
    rw [partOf, partOf, Value.getD, Value.getD, hpath,
      at?_restricted_of_ne htree hfits _ (by decide)]
  have hflow : theme.hasBlockGap = (theme.restricted origins).hasBlockGap := by
    rw [hasBlockGap, hasBlockGap, Value.solid?_congr hgap]
  rw [scopeStyles, scopeStyles, ← hpart, hflow,
    styleDeclarations_congr (fun _ _ => rfl) hsettings]

/-- The scopes of styles are the same. -/
theorem styleScopes_restricted (table : BlockTable) (origins : List String) :
    styleScopes table (theme.restricted origins).tree = styleScopes table theme.tree := by
  have hsame := at?_restricted_of_ne htree hfits origins
    (by decide : "styles" ≠ "settings") []
  rw [Value.at?_cons, Value.at?_cons, Value.walk?_singleton, Value.walk?_singleton] at hsame
  rw [styleScopes, styleScopes, hsame]

include hvalue

/-- **Every section for the named origins** is that of the restricted theme for all origins. -/
theorem sectionPieces_restricted (table : BlockTable) (origins : List String)
    (part : StyleSection) : theme.sectionPieces table origins part =
      (theme.restricted origins).sectionPieces table Origin.allNames part := by
  cases part with
  | customProperties =>
    rw [sectionPieces, sectionPieces, variablePieces, variablePieces,
      settingScopes_restricted htree hfits, Result.mapM_congr fun _ hscope =>
        scopeVariables_restricted htree hfits hvalue hscope]
  | styles =>
    rw [sectionPieces, sectionPieces, stylePieces, stylePieces,
      styleScopes_restricted htree hfits, Result.mapM_congr fun _ hscope =>
        scopeStyles_restricted htree hfits hscope]
  | presets =>
    rw [sectionPieces, sectionPieces, presetPieces, presetPieces,
      settingScopes_restricted htree hfits, Result.mapM_congr fun _ hscope =>
        scopeClasses_restricted htree hfits hvalue hscope]

/-- A stylesheet for the named origins is that of the restricted theme for all origins. -/
theorem stylesheet_restricted (table : BlockTable) (sections : List StyleSection)
    (origins : List String) : theme.stylesheet table sections origins =
      (theme.restricted origins).stylesheet table sections Origin.allNames := by
  rw [stylesheet, stylesheet, Result.mapM_congr fun part _ =>
    sectionPieces_restricted htree hfits hvalue table origins part]

/-- **The filters of the named origins** are those of the restricted theme for all origins. -/
theorem filters_restricted (table : BlockTable) (origins : List String) :
    theme.filters table origins = (theme.restricted origins).filters table Origin.allNames := by
  have hpresets : ((settingScopes table theme.tree).flatMap fun scope =>
      duotonePresets (theme.partOf scope) origins) =
        (settingScopes table theme.tree).flatMap fun scope =>
          duotonePresets ((theme.restricted origins).partOf scope) Origin.allNames := by
    rw [List.flatMap_def, List.flatMap_def, List.map_congr_left fun _ hscope =>
      duotonePresets_restricted htree hfits hvalue hscope]
  rw [filters, filters, settingScopes_restricted htree hfits, hpresets]

end Restricted

/-! ### Section by section -/

/-- **A stylesheet is that of its sections**, one after the other. -/
theorem stylesheet_eq_join (theme : Theme) (table : BlockTable) (sections : List StyleSection)
    (origins : List String) : theme.stylesheet table sections origins = do
      let texts ← sections.mapM fun part => theme.stylesheet table [part] origins
      return String.join texts := by
  change Piece.written _ sections = _
  induction sections with
  | nil => rfl
  | cons part sections ih =>
    have hone : theme.stylesheet table [part] origins =
        (theme.sectionPieces table origins part).map Piece.join := by
      change Piece.written _ [part] = _
      rw [Piece.written_cons, Piece.written_nil]
      cases theme.sectionPieces table origins part with
      | error e => rfl
      | ok pieces => exact congrArg Except.ok String.append_empty
    rw [Piece.written_cons, List.mapM_cons, hone, ih]
    cases theme.sectionPieces table origins part with
    | error e => rfl
    | ok pieces =>
      cases sections.mapM fun part => theme.stylesheet table [part] origins with
      | error e => rfl
      | ok texts => exact congrArg Except.ok String.join_cons.symm

/-- What is left of a theme depends on which origins are named, and on nothing else. -/
theorem restricted_congr {origins' : List String}
    (h : ∀ name, name ∈ origins ↔ name ∈ origins') (theme : Theme) :
    theme.restricted origins = theme.restricted origins' := by
  have hcontains : ∀ name, origins.contains name = origins'.contains name := by
    intro name
    rw [Bool.eq_iff_iff, List.contains_iff_mem, List.contains_iff_mem, h]
  simp only [restricted, unnamedCollections, hcontains]

/-- **Selecting is restricting.** Of any theme that has been constructed and merged, with any blocks
that are registered now: the stylesheet of the named sections and origins is that of the theme
without the other origins, for all origins, section by section in the order of the stylesheet; and
so are the filters. Other names that are the same apart from order and repetition give the same. -/
theorem selection (h : Made theme) (table : BlockTable) (parts origins : List String) :
    (theme.stylesheet table (StyleSection.ordered parts) origins = do
      let named := StyleSection.all.filter fun part => decide (part.name ∈ parts)
      let texts ← named.mapM fun part => (theme.restricted origins).stylesheet table
        (StyleSection.ordered [part.name]) Origin.allNames
      return String.join texts) ∧
    theme.filters table origins = (theme.restricted origins).filters table Origin.allNames ∧
    ∀ parts' origins' : List String, (∀ name, name ∈ parts ↔ name ∈ parts') →
      (∀ name, name ∈ origins ↔ name ∈ origins') →
        theme.stylesheet table (StyleSection.ordered parts) origins =
          theme.stylesheet table (StyleSection.ordered parts') origins' ∧
        theme.filters table origins = theme.filters table origins' := by
  obtain ⟨blocks, es, htree, hfits⟩ := h.exists_fits
  have hstylesheet := stylesheet_restricted htree hfits h.isTree table
  have hfilters := filters_restricted htree hfits h.isTree table
  refine ⟨?_, hfilters origins, fun parts' origins' hparts horigins => ⟨?_, ?_⟩⟩
  · have hnamed : StyleSection.ordered parts =
        StyleSection.all.filter fun part => decide (part.name ∈ parts) := by
      simp only [StyleSection.ordered, List.contains_eq_mem]
    simp only [StyleSection.ordered_singleton]
    rw [hstylesheet, stylesheet_eq_join, hnamed]
  · rw [hstylesheet, hstylesheet, restricted_congr horigins, StyleSection.ordered_congr hparts]
  · rw [hfilters, hfilters, restricted_congr horigins]

/-- The defaults and a theme both have a red. Asked for the presets of the theme, by a list that
repeats it and names no other origin that there is, one gets what is left without the defaults. -/
theorem selection_palette :
    let palette := fun color => Value.map [(.text "settings", .map [(.text "color", .map [
      (.text "palette", .list [.map [(.text "slug", .text "red"), (.text "color", .text color)]])
    ])])]
    let theme := (construct [] "default" (palette "#f00")).merge
      (construct [] "theme" (palette "#e00"))
    Made theme ∧
      (theme.restricted ["theme", "user", "theme"]).tree.at?
        ["settings", "color", "palette", "default"] = none ∧
      theme.filters [] ["theme", "user", "theme"] =
        (theme.restricted ["theme", "user", "theme"]).filters [] Origin.allNames ∧
      theme.stylesheet [] (StyleSection.ordered ["presets", "variables", "presets"])
        ["theme", "user", "theme"] =
          theme.stylesheet [] (StyleSection.ordered ["variables", "presets"])
            ["user", "theme"] := by
  intro palette theme
  have hmade : Made theme :=
    .merge (.construct _ _ (by decide)) (.construct _ _ (by decide))
  obtain ⟨-, hfilters, hcongr⟩ := selection hmade [] ["presets", "variables", "presets"]
    ["theme", "user", "theme"]
  exact ⟨hmade, by decide +kernel, hfilters,
    (hcongr ["variables", "presets"] ["user", "theme"] (by simp) (by simp)).1⟩

end Theme

end ThemeSheet
