import ThemeSheet.Proofs.Schema.OtherNames
import ThemeSheet.Proofs.Style.Places
import ThemeSheet.Proofs.Style.Rows
import ThemeSheet.Proofs.Theme.Runs

/-!
# Blocks that are registered no more

A theme is pruned to the blocks that are registered when it is compiled. Blocks come and go, and
whoever asks for the stylesheet later does so with the blocks that are registered then. The tree is
not pruned again; but no block that is gone has a selector, and a scope without a selector is
written nowhere. So the stylesheet is that of the tree pruned again, for the blocks there are now.

There is one difference. If the styles hold nothing but blocks that are gone, pruning again drops
the styles as a whole, and the fixed rules around those of the root go with them.

## Main definitions

* `Theme.Made`, of themes that are constructed and merged while blocks come and go;
* `Theme.resanitized`, a theme pruned again.

## Main results

* `Theme.Made.exists_fits`: the tree of such a theme fits the schema for some names of blocks;
* `Theme.stylesheet_resanitized`: the stylesheet is that of the theme pruned again.
-/

namespace ThemeSheet

/-! ### Texts of pieces -/

namespace Piece

variable {α : Type} {f g : α → Except Refusal (List Piece)} {l : List α}

/-- The text of the pieces that are made of the items of a list. -/
def written (f : α → Except Refusal (List Piece)) (l : List α) : Except Refusal String := do
  let groups ← l.mapM f
  return join groups.flatten

theorem join_append (pieces more : List Piece) :
    join (pieces ++ more) = join pieces ++ join more := by
  rw [join, List.map_append, String.join_append]
  rfl

@[simp] theorem written_nil (f : α → Except Refusal (List Piece)) : written f [] = .ok "" := rfl

theorem written_cons (f : α → Except Refusal (List Piece)) (a : α) (l : List α) :
    written f (a :: l) = do
      let text ← (f a).map join
      let rest ← written f l
      return text ++ rest := by
  rw [written, written, List.mapM_cons]
  cases f a with
  | error e => rfl
  | ok pieces =>
    cases l.mapM f with
    | error e => rfl
    | ok groups => exact congrArg Except.ok (join_append pieces groups.flatten)

/-- Items of the same texts are written alike. -/
theorem written_congr (h : ∀ a ∈ l, (f a).map join = (g a).map join) :
    written f l = written g l := by
  induction l with
  | nil => rfl
  | cons a l ih =>
    obtain ⟨ha, hl⟩ := List.forall_mem_cons.mp h
    rw [written_cons, written_cons, ha, ih hl]

/-- Items without text are not seen. -/
theorem written_eq_empty (h : ∀ a ∈ l, (f a).map join = .ok "") : written f l = .ok "" := by
  induction l with
  | nil => rfl
  | cons a l ih =>
    obtain ⟨ha, hl⟩ := List.forall_mem_cons.mp h
    rw [written_cons, ha, ih hl]
    rfl

/-- Items without text may be passed over. -/
theorem written_filter {keep : α → Bool}
    (h : ∀ a ∈ l, keep a = false → (f a).map join = .ok "") :
    written f (l.filter keep) = written f l := by
  induction l with
  | nil => rfl
  | cons a l ih =>
    obtain ⟨ha, hl⟩ := List.forall_mem_cons.mp h
    rw [List.filter_cons]
    cases hkeep : keep a with
    | true => rw [if_pos rfl, written_cons, written_cons, ih hl]
    | false =>
      rw [if_neg Bool.false_ne_true, written_cons, ha hkeep, ih hl]
      cases written f l with
      | error e => rfl
      | ok text => exact congrArg Except.ok (String.empty_append).symm

/-- Lists that are the same but for items without text are written alike. -/
theorem written_eq_of_filter {keep : α → Bool} {l' : List α}
    (hf : ∀ a ∈ l, keep a = false → (f a).map join = .ok "")
    (hg : ∀ a ∈ l', keep a = false → (g a).map join = .ok "")
    (hkept : l.filter keep = l'.filter keep)
    (h : ∀ a ∈ l', keep a = true → (f a).map join = (g a).map join) :
    written f l = written g l' := by
  rw [← written_filter hf, hkept, ← written_filter hg]
  refine written_congr fun a ha => ?_
  obtain ⟨hmem, hkeep⟩ := List.mem_filter.mp ha
  exact h a hmem hkeep

/-- What is made of a list in one go is written like its items. -/
theorem map_join_flatten (f : α → Except Refusal (List Piece)) (l : List α) :
    (do let groups ← l.mapM f; return groups.flatten).map join = written f l := by
  rw [written]
  cases l.mapM f <;> rfl

end Piece

/-! ### Parts that hold the same -/

/-- Two parts of trees hold the same at every path that does not lead into blocks. -/
def Value.SameOwn (v w : Value) : Prop := ∀ q : Path, q.isOwn = true → v.at? q = w.at? q

section SameOwn

variable {settings settings' styles styles' : Value} {origins : List String}

theorem presetItems_congr (h : settings.SameOwn settings') (category : Category) (origin : Origin) :
    presetItems settings category origin = presetItems settings' category origin := by
  rw [presetItems, presetItems, h _ (Path.isOwn_append category.isOwn_path _)]

theorem presetsOf_congr (h : settings.SameOwn settings') (category : Category)
    (origins : List String) : presetsOf settings category origins =
      presetsOf settings' category origins := by
  simp only [presetsOf, presetItems_congr h]

/-- The custom properties of settings depend on the presets and the custom tree alone. -/
theorem variableDeclarations_congr {origins' : List String}
    (hpresets : ∀ category, presetsOf settings category origins =
      presetsOf settings' category origins')
    (hcustom : settings.at? ["custom"] = settings'.at? ["custom"]) :
    Theme.variableDeclarations settings origins =
      Theme.variableDeclarations settings' origins' := by
  have hdeclared : customDeclarations settings = customDeclarations settings' := by
    rw [customDeclarations, customDeclarations, Value.getD, Value.getD, hcustom]
  have hcategory : categoryDeclarations settings origins =
      categoryDeclarations settings' origins' := by
    funext category
    rw [categoryDeclarations, categoryDeclarations, valuesBySlug, valuesBySlug, hpresets]
  rw [Theme.variableDeclarations, Theme.variableDeclarations, hdeclared, presetDeclarations,
    presetDeclarations, hcategory]

/-- The utility classes of settings depend on the presets alone. -/
theorem presetRules_congr {origins' : List String}
    (hpresets : ∀ category, presetsOf settings category origins =
      presetsOf settings' category origins') (selector : String) :
    presetRules settings selector origins = presetRules settings' selector origins' := by
  have hcategory : ∀ under, categoryRules settings under origins =
      categoryRules settings' under origins' := by
    intro under
    funext category
    rw [categoryRules, categoryRules, slugsOf, slugsOf, hpresets]
  rw [presetRules, presetRules, hcategory]

theorem isOwn_path_of_mem_properties : ∀ p ∈ properties, Path.isOwn p.path = true := by
  decide

/-- The declarations of styles depend on the styles and on whether there is a block gap. -/
theorem styleDeclarations_congr (hstyles : styles.SameOwn styles')
    (hgap : settings.at? ["spacing", "blockGap"] = settings'.at? ["spacing", "blockGap"]) :
    styleDeclarations styles settings = styleDeclarations styles' settings' := by
  have hone : ∀ p ∈ properties,
      p.declaration? styles settings = p.declaration? styles' settings' := by
    intro p hp
    have hvalue : propertyValue styles p.path = propertyValue styles' p.path := by
      rw [propertyValue_eq, propertyValue_eq, Value.getD, Value.getD,
        hstyles _ (isOwn_path_of_mem_properties p hp)]
    have hallowed : p.allowed settings = p.allowed settings' := by
      rw [Property.allowed, Property.allowed, Property.gate?]
      split
      · rfl
      next path hpath =>
        split at hpath
        · cases hpath
          rw [Value.solid?_congr hgap]
        · cases hpath
    rw [Property.declaration?, Property.declaration?, Property.declared?, Property.declared?,
      hvalue, hallowed]
  rw [styleDeclarations, styleDeclarations, declarationsOf, declarationsOf,
    Result.mapM_congr hone]

theorem presetsOf_emptyMap (category : Category) (origins : List String) :
    presetsOf .emptyMap category origins = [] := by
  rw [presetsOf, List.flatMap_eq_nil_iff]
  intro origin _
  cases category <;> rfl

/-- Settings without anything declare nothing. -/
theorem variableDeclarations_emptyMap (origins : List String) :
    Theme.variableDeclarations .emptyMap origins = .ok [] := by
  have hcategory : categoryDeclarations .emptyMap origins = fun _ => .ok [] := by
    funext category
    rw [categoryDeclarations, valuesBySlug, presetsOf_emptyMap]
    rfl
  rw [Theme.variableDeclarations, presetDeclarations, hcategory]
  rfl

/-- Settings without anything have no utility classes. -/
theorem presetRules_emptyMap (selector : String) (origins : List String) :
    presetRules .emptyMap selector origins = .ok [] := by
  have hcategory : ∀ under, categoryRules .emptyMap under origins = fun _ => .ok [] := by
    intro under
    funext category
    rw [categoryRules, slugsOf, presetsOf_emptyMap]
    exact congrArg Except.ok (List.flatMap_eq_nil_iff.mpr fun _ _ => rfl)
  rw [presetRules, hcategory]
  rfl

end SameOwn

namespace Theme

open Entries (under)
open Piece (written)
open Schema (Fits)
open Scope (compiles)
open Value (walk? SameOwn)

variable {blocks : List String} {table : BlockTable} {theme : Theme} {es : Entries}
  {scope : Scope} {origins : List String}

/-! ### Themes while blocks come and go -/

/-- The themes that are constructed and merged while blocks come and go: each is constructed with
the blocks that are registered at its time. -/
inductive Made : Theme → Prop
  | construct (blocks : List String) (origin : String) {raw : Value} (h : raw.IsTree) :
    Made (construct blocks origin raw)
  | merge {theme incoming : Theme} (h : Made theme) (h' : Made incoming) :
    Made (theme.merge incoming)

/-- **The tree fits the schema** for the names of all blocks that have ever been registered. -/
theorem Made.exists_fits (h : Made theme) : ∃ blocks es, theme.tree = .map es ∧
    Fits (Schema.wholeTheme blocks elementNames) es := by
  induction h with
  | construct blocks origin h =>
    obtain ⟨es, htree, hes⟩ := isCompiled_compileTree blocks h ((Origin.ofName? origin).getD .theme)
    exact ⟨blocks, es, htree, hes.fits⟩
  | @merge theme incoming _ _ ih ih' =>
    obtain ⟨blocks, es, htree, hes⟩ := ih
    obtain ⟨names, fs, hincoming, hfs⟩ := ih'
    have hbase := hes.more (List.subset_append_left blocks names)
    have hnew := hfs.more (List.subset_append_right blocks names)
    refine ⟨blocks ++ names, ?_⟩
    rw [Theme.merge, htree, hincoming]
    refine mergeTrees_of_set (motive := fun tree => ∃ ms, tree = .map ms ∧
      Fits (Schema.wholeTheme (blocks ++ names) elementNames) ms) hnew
      ⟨_, Value.overlayValue_map_map es fs none none, hbase.overlay fs hnew⟩ ?_
    rintro _ p v hp ⟨ms, rfl, hms⟩
    exact ⟨_, rfl, hms.setEntries (hp.part? elementNames) trivial⟩

/-- A theme with its tree pruned again, for other names of blocks. -/
def resanitized (names : List String) (theme : Theme) : Theme :=
  { theme with tree := .map (sanitize names elementNames theme.tree) }

/-! ### Scopes of settings -/

/-- What is made of the settings of a scope: nothing without a selector, nothing but what its own
settings hold, and no text if they hold nothing. -/
structure OfSettings (pieces : Theme → Scope → Except Refusal (List Piece)) : Prop where
  unselected : ∀ theme scope, scope.selector = none → pieces theme scope = .ok []
  congr : ∀ theme theme' scope, SameOwn (theme.partOf scope) (theme'.partOf scope) →
    pieces theme scope = pieces theme' scope
  empty : ∀ theme scope, SameOwn (theme.partOf scope) .emptyMap →
    (pieces theme scope).map Piece.join = .ok ""

theorem ofSettings_scopeVariables (origins : List String) :
    OfSettings fun theme => theme.scopeVariables origins := by
  refine ⟨fun theme scope hscope => ?_, fun theme theme' scope h => ?_, fun theme scope h => ?_⟩
  · rw [scopeVariables, hscope]
  · have hpresets := fun category => presetsOf_congr h category origins
    rw [scopeVariables, scopeVariables, variableDeclarations_congr hpresets (h _ rfl)]
  · have hpresets := fun category => presetsOf_congr h category origins
    rw [scopeVariables, variableDeclarations_congr hpresets (h _ rfl),
      variableDeclarations_emptyMap]
    cases scope.selector with
    | none => rfl
    | some selector => rfl

theorem ofSettings_scopeClasses (origins : List String) :
    OfSettings fun theme => theme.scopeClasses origins := by
  refine ⟨fun theme scope hscope => ?_, fun theme theme' scope h => ?_, fun theme scope h => ?_⟩
  · rw [scopeClasses, hscope]
  · rw [scopeClasses, scopeClasses]
    cases scope.selector with
    | none => rfl
    | some selector => simp only [presetRules_congr fun category => presetsOf_congr h category _]
  · rw [scopeClasses]
    cases scope.selector with
    | none => rfl
    | some selector =>
      dsimp only
      rw [presetRules_congr fun category => presetsOf_congr h category _, presetRules_emptyMap]
      rfl

theorem selector_eq_none (h : scope.compiles = false) : scope.selector = none := by
  rwa [compiles, Option.isSome_eq_false_iff, Option.isNone_iff_eq_none] at h

section Resanitized

variable (htree : theme.tree = .map es)
include htree

theorem tree_resanitized (names : List String) :
    (theme.resanitized names).tree = .map (sanitize names elementNames (.map es)) := by
  rw [resanitized, htree]

/-- Where no settings are left, no part of them holds anything. -/
theorem sameOwn_emptyMap {names : List String} (hplace : SettingPlace names scope.path)
    (hleft : under "settings" (sanitize names elementNames (.map es)) = []) :
    SameOwn ((theme.resanitized names).partOf scope) .emptyMap := by
  intro q hq
  have hne := Path.ne_nil_of_isOwn hq
  have hempty : ∀ rest : Path, rest ≠ [] → walk? rest .emptyMap = none := by
    intro rest hrest
    obtain ⟨name, rest, rfl⟩ := List.exists_cons_of_ne_nil hrest
    rfl
  obtain ⟨rest, hpath, hrest⟩ : ∃ rest, scope.path ++ q = "settings" :: rest ∧ rest ≠ [] := by
    generalize scope.path = place at hplace
    cases hplace with
    | root => exact ⟨q, rfl, hne⟩
    | @block name _ => exact ⟨"blocks" :: name :: q, rfl, List.cons_ne_nil _ _⟩
  rw [partOf, Value.at?_getD_emptyMap hplace.ne_nil hne, Value.at?_of_ne_nil (by simp [hne]),
    tree_resanitized htree, hpath, Entries.walk?_under hrest, hleft, Value.at?_of_ne_nil hne]
  exact (hempty rest hrest).trans (hempty q hne).symm

variable (hfits : Fits (Schema.wholeTheme blocks elementNames) es)
include hfits

/-- The settings of a scope that compiles hold the same when the tree is pruned again. -/
theorem sameOwn_of_settingScope (h : scope ∈ settingScopes table theme.tree)
    (hcompiles : scope.compiles = true) :
    SameOwn (theme.partOf scope) ((theme.resanitized table.names).partOf scope) := by
  intro q hq
  have hplace := Scope.settingPlace_of_compiles h hcompiles
  have hne := Path.ne_nil_of_isOwn hq
  rw [partOf, partOf, Value.at?_getD_emptyMap hplace.ne_nil hne,
    Value.at?_getD_emptyMap hplace.ne_nil hne, Value.at?_of_ne_nil (by simp [hne]),
    Value.at?_of_ne_nil (by simp [hne]), tree_resanitized htree, htree]
  exact (walk?_sanitize_settings hfits hplace hq).symm

/-- **What is made of the settings is the same** when the tree is pruned again. -/
theorem written_settingScopes {pieces : Theme → Scope → Except Refusal (List Piece)}
    (hpieces : OfSettings pieces) :
    written (pieces (theme.resanitized table.names))
        (settingScopes table (theme.resanitized table.names).tree) =
      written (pieces theme) (settingScopes table theme.tree) := by
  have hunselected : ∀ theme, ∀ scope ∈ settingScopes table theme.tree, compiles scope = false →
      (pieces theme scope).map Piece.join = .ok "" := by
    intro theme scope _ hcompiles
    rw [hpieces.unselected theme scope (selector_eq_none hcompiles)]
    rfl
  obtain ⟨hfilled, -⟩ := filled_sanitize hfits table.names
  by_cases hleft : under "settings" (sanitize table.names elementNames (.map es)) = []
  · -- All that was there belongs to blocks that are gone, and none of that is written.
    have hgone : ∀ scope ∈ settingScopes table theme.tree,
        (pieces theme scope).map Piece.join = .ok "" := by
      intro scope hscope
      cases hcompiles : scope.compiles with
      | false => exact hunselected theme scope hscope hcompiles
      | true =>
        refine hpieces.empty theme scope fun q hq => ?_
        rw [sameOwn_of_settingScope htree hfits hscope hcompiles q hq]
        have hplace := Scope.settingPlace_of_compiles hscope hcompiles
        exact sameOwn_emptyMap htree hplace hleft q hq
    rw [tree_resanitized htree, Scope.settingScopes_eq hfilled, if_pos hleft,
      Piece.written_nil, Piece.written_eq_empty hgone]
  · have hscopes := filter_settingScopes hfits hleft
    rw [← tree_resanitized htree, ← htree] at hscopes
    refine Piece.written_eq_of_filter (hunselected _) (hunselected theme) hscopes
      fun scope hmem hcompiles => ?_
    rw [hpieces.congr _ _ scope (sameOwn_of_settingScope htree hfits hmem hcompiles)]

/-! ### Scopes of styles -/

/-- The styles of a scope that compiles hold the same when the tree is pruned again. -/
theorem sameOwn_of_styleScope (h : scope ∈ styleScopes table theme.tree)
    (hcompiles : scope.compiles = true) :
    SameOwn (theme.partOf scope) ((theme.resanitized table.names).partOf scope) := by
  intro q hq
  have hne := Path.ne_nil_of_isOwn hq
  have hplace := stylePlace_of_mem_styleScopes h
  rw [partOf, partOf, Value.at?_getD_emptyMap hplace.ne_nil hne,
    Value.at?_getD_emptyMap hplace.ne_nil hne, Value.at?_of_ne_nil (by simp [hne]),
    Value.at?_of_ne_nil (by simp [hne]), tree_resanitized htree, htree]
  rcases Scope.cases_of_compiles h hcompiles with hpath | ⟨name, hpath⟩ | ⟨name, hname, r, hpath⟩
  · rw [hpath]
    exact (walk?_sanitize_styles hfits hq table.names).symm
  · rw [hpath]
    have hown : Path.isOwn ("elements" :: name :: q) = true := rfl
    exact (walk?_sanitize_styles hfits hown table.names).symm
  · rw [hpath]
    exact (walk?_sanitize_block hfits hname (r ++ q)).symm

/-- The settings of the root hold the same when the tree is pruned again. -/
theorem sameOwn_settings (names : List String) :
    SameOwn theme.settings (theme.resanitized names).settings := by
  intro q hq
  have hne := Path.ne_nil_of_isOwn hq
  rw [at?_settings theme hne, at?_settings _ hne, Value.at?_cons, Value.at?_cons,
    tree_resanitized htree, htree]
  exact (walk?_sanitize_settings hfits .root hq).symm

/-- **What is made of the styles of a scope is the same** when the tree is pruned again. -/
theorem scopeStyles_resanitized (h : scope ∈ styleScopes table theme.tree)
    (hcompiles : scope.compiles = true) :
    (theme.resanitized table.names).scopeStyles scope = theme.scopeStyles scope := by
  have hgap : (theme.resanitized table.names).hasBlockGap = theme.hasBlockGap := by
    have hroot : SettingPlace table.names ["settings"] := .root
    have hsame := walk?_sanitize_settings hfits hroot (q := ["spacing", "blockGap"]) rfl
    rw [hasBlockGap, hasBlockGap, tree_resanitized htree, htree]
    exact congrArg Option.isSome (Value.solid?_congr hsame)
  rw [scopeStyles, scopeStyles, hgap,
    ← styleDeclarations_congr (sameOwn_of_styleScope htree hfits h hcompiles)
      (sameOwn_settings htree hfits table.names _ rfl)]

/-- **What is made of the styles is the same** when the tree is pruned again, if styles are left. -/
theorem written_styleScopes (hleft : under "styles" es ≠ [] →
      under "styles" (sanitize table.names elementNames (.map es)) ≠ []) :
    written (theme.resanitized table.names).scopeStyles
        (styleScopes table (theme.resanitized table.names).tree) =
      written theme.scopeStyles (styleScopes table theme.tree) := by
  have hunselected : ∀ (theme : Theme), ∀ scope ∈ styleScopes table theme.tree,
      compiles scope = false → (theme.scopeStyles scope).map Piece.join = .ok "" := by
    intro theme scope _ hcompiles
    rw [scopeStyles, selector_eq_none hcompiles]
    rfl
  by_cases hstyles : under "styles" es = []
  · have hnone : under "styles" (sanitize table.names elementNames (.map es)) = [] := by
      rw [under_styles_sanitize hfits, hstyles, Schema.pruneEntries]
    rw [tree_resanitized htree, htree, Scope.styleScopes_eq (hfits.filled rfl), if_pos hstyles,
      Scope.styleScopes_eq (filled_sanitize hfits table.names).2, if_pos hnone]
    rfl
  · have hscopes := filter_styleScopes hfits (hleft hstyles)
    rw [← tree_resanitized htree, ← htree] at hscopes
    refine Piece.written_eq_of_filter (hunselected _) (hunselected theme) hscopes
      fun scope hmem hcompiles => ?_
    rw [scopeStyles_resanitized htree hfits hmem hcompiles]

end Resanitized

/-! ### The stylesheet -/

/-- **Blocks that are registered no more do not show.** For any theme that has been made while
blocks came and went, the stylesheet with the blocks there are now, of any sections and origins, is
that of the theme pruned again for their names. If the styles are asked for, some must be left of
them, unless there were none. -/
theorem stylesheet_resanitized (hmade : Made theme) (table : BlockTable)
    (sections : List StyleSection) (origins : List String)
    (hstyles : .styles ∈ sections → (theme.tree.entryNamed? "styles").isSome = true →
      ((theme.resanitized table.names).tree.entryNamed? "styles").isSome = true) :
    (theme.resanitized table.names).stylesheet table sections origins =
      theme.stylesheet table sections origins := by
  obtain ⟨blocks, es, htree, hfits⟩ := hmade.exists_fits
  refine Piece.written_congr fun part hpart => ?_
  cases part with
  | customProperties =>
    rw [sectionPieces, sectionPieces, variablePieces, variablePieces, Piece.map_join_flatten,
      Piece.map_join_flatten]
    exact written_settingScopes htree hfits (ofSettings_scopeVariables origins)
  | styles =>
    rw [sectionPieces, sectionPieces, stylePieces, stylePieces, Piece.map_join_flatten,
      Piece.map_join_flatten]
    refine written_styleScopes htree hfits fun hbefore => ?_
    have hfilled : Entries.Filled "styles" es := hfits.filled rfl
    have hleft := hstyles hpart
    rw [tree_resanitized htree, htree] at hleft
    have hstyles := (filled_sanitize hfits table.names).2
    exact hstyles.isSome_iff.mp (hleft (hfilled.isSome_iff.mpr hbefore))
  | presets =>
    rw [sectionPieces, sectionPieces, presetPieces, presetPieces, Piece.map_join_flatten,
      Piece.map_join_flatten]
    exact written_settingScopes htree hfits (ofSettings_scopeClasses origins)

/-- A theme colors a table and everything else, and then the table is registered no more: its color
is still in the tree, and no more in the stylesheet than when it has been pruned. -/
theorem stylesheet_resanitized_table :
    let color := fun name => Value.map [(.text "color", .map [(.text "text", .text name)])]
    let raw := Value.map [(.text "styles", .map [
      (.text "color", .map [(.text "text", .text "red")]),
      (.text "blocks", .map [(.text "core/table", color "blue")])])]
    let theme := construct ["core/table"] "theme" raw
    Made theme ∧ (theme.tree.at? ["styles", "blocks", "core/table"]).isSome = true ∧
      (theme.resanitized []).tree.at? ["styles", "blocks", "core/table"] = none ∧
        (theme.resanitized []).stylesheet [] StyleSection.all Origin.allNames =
          theme.stylesheet [] StyleSection.all Origin.allNames := by
  intro color raw theme
  have hmade : Made theme := .construct _ _ (by decide)
  refine ⟨hmade, by decide +kernel, by decide +kernel, ?_⟩
  exact stylesheet_resanitized hmade [] _ _ fun _ _ => by decide +kernel

end Theme

end ThemeSheet
