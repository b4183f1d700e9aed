import ThemeSheet.Proofs.Theme.SectionContents

/-!
# The sections of a tree as they are cleaned

A tree has two sections with scopes in them, the styles and the settings. The scopes of the styles
are the styles themselves and the elements and the blocks in them, and each block has elements of
its own; those of the settings are the settings and the blocks. Listed with their paths, they are
the scopes of entries with groups. So what cleaning writes of a section is the content of entries
with groups, and cleaning a tree is replacing its two sections by that.

## Main definitions

* `Theme.stylesContent`, `Theme.settingsContent`, what remains of the sections;
* `Theme.stylesParts`, `Theme.settingsParts`, the scopes of the sections by their paths;
* `Theme.withSections`, a tree with what remains of its sections.

## Main results

* `Theme.map_styleScopes`, `Theme.map_settingScopes`: the scopes of a tree by their paths;
* `Theme.clean_eq`: cleaning as a matter of the sections.
-/

namespace ThemeSheet

open Entries (under)
open Value (walk?)

namespace Theme

variable {check : SafetyCheck} {table : BlockTable} {es bs : Entries}
  {clean : Value → Except Refusal Entries}

/-! ### Contents of the sections -/

/-- What remains of the styles of a block: its own and those of its elements. -/
def blockContent (check : SafetyCheck) : Value → Except Refusal Entries :=
  withGroup "elements" (cleanStyles check) (cleanStyles check)

/-- What remains of the styles: their own, those of the elements and those of the blocks. -/
def stylesContent (check : SafetyCheck) : Value → Except Refusal Entries :=
  withGroup "blocks" (blockContent check) (blockContent check)

/-- What remains of the settings: their own and those of the blocks. -/
def settingsContent (check : SafetyCheck) : Value → Except Refusal Entries :=
  withGroup "blocks" (cleanSettings check) (cleanSettings check)

theorem isCleaner_blockContent (check : SafetyCheck) : IsCleaner ["blocks"] (blockContent check) :=
  (isCleaner_cleanStyles check).withGroup (isCleaner_cleanStyles check) (by decide)

theorem isCleaner_stylesContent (check : SafetyCheck) : IsCleaner [] (stylesContent check) :=
  (isCleaner_blockContent check).withGroup (isCleaner_blockContent check) (by decide)

theorem isCleaner_settingsContent (check : SafetyCheck) : IsCleaner [] (settingsContent check) :=
  (isCleaner_cleanSettings check).withGroup (isCleaner_cleanSettings check) (by decide)

/-! ### Scopes by their paths -/

/-- The scopes of the styles of a block. -/
def blockParts : Value → List (Path × Value) := partsWithGroup "elements" onlyPart onlyPart

/-- The scopes of the styles. -/
def stylesParts : Value → List (Path × Value) := partsWithGroup "blocks" blockParts blockParts

/-- The scopes of the settings. -/
def settingsParts : Value → List (Path × Value) := partsWithGroup "blocks" onlyPart onlyPart

theorem isContent_blockContent (check : SafetyCheck) :
    IsContent (cleanStyles check) blockParts (blockContent check) :=
  (isContent_onlyPart _).withGroup (isContent_onlyPart _) fun v kept h =>
    (isCleaner_cleanStyles check).apart v kept h "elements" (by decide)

theorem isContent_stylesContent (check : SafetyCheck) :
    IsContent (cleanStyles check) stylesParts (stylesContent check) :=
  (isContent_blockContent check).withGroup (isContent_blockContent check) fun v kept h =>
    (isCleaner_blockContent check).apart v kept h "blocks" (by decide)

theorem isContent_settingsContent (check : SafetyCheck) :
    IsContent (cleanSettings check) settingsParts (settingsContent check) :=
  (isContent_onlyPart _).withGroup (isContent_onlyPart _) fun v kept h =>
    (isCleaner_cleanSettings check).apart v kept h "blocks" (by decide)

/-- The path of a scope with the part of the tree there. -/
def scopePart (tree : Value) (scope : Scope) : Path × Value :=
  (scope.path, tree.getD scope.path .emptyMap)

/-- Writing what remains of a scope is writing what remains of its part. -/
theorem keepScope_eq {names : List String} (hclean : IsCleaner names clean) {scope : Scope}
    (hne : scope.path ≠ []) (tree : Value) (kept : Entries) :
    keepScope clean tree kept scope = keepPart clean kept (scopePart tree scope) := by
  have hnothing : ∀ v : Value, v.truthy = false → clean v = .ok [] := by
    intro v hv
    refine hclean.nothing fun name _ => ?_
    cases v with
    | map fs mark =>
      have hempty : fs = [] := by simpa [Value.truthy] using hv
      rw [hempty]
      rfl
    | _ => rfl
  unfold keepScope
  rw [keepPart, scopePart]
  dsimp only
  cases htruthy : (tree.getD scope.path .emptyMap).truthy with
  | false =>
    rw [hnothing _ htruthy]
    rfl
  | true =>
    cases clean (tree.getD scope.path .emptyMap) with
    | error e => rfl
    | ok remains =>
      exact congrArg Except.ok (Entries.put_of_ne_nil hne remains kept).symm

/-- What is found in a group of a value. -/
theorem walk?_of_mem_under {v part : Value} (hv : v.IsTree) {group name : String}
    (h : (.text name, part) ∈ v.under group) (rest : Path) :
    walk? (group :: name :: rest) v = walk? rest part := by
  have hgroup := Value.areTrees_under hv group
  have hpart : Entries.named? name (v.under group) = some part :=
    Entries.get?_of_mem hgroup.distinct h
  rw [Value.under] at hpart
  rw [Value.walk?_cons]
  cases hmap : v.entryNamed? group with
  | none =>
    rw [hmap] at hpart
    cases hpart
  | some w =>
    rw [hmap] at hpart
    cases w with
    | map bs mark =>
      have hpart : Entries.named? name bs = some part := hpart
      rw [Option.bind_some, Value.walk?_cons_map, hpart, Option.bind_some]
    | _ => cases hpart

theorem scopePart_eq {tree v : Value} {scope : Scope} (hne : scope.path ≠ [])
    (hv : walk? scope.path tree = some v) : scopePart tree scope = (scope.path, v) := by
  rw [scopePart, Value.getD, Value.at?_of_ne_nil hne, hv, Option.getD_some]

/-- A value at a path below a place. -/
def placed (place : Path) (part : Path × Value) : Path × Value := (place ++ part.1, part.2)

/-- The scopes of the names of entries are the entries. -/
theorem map_entryNames {tree : Value} {ofName : String → Scope} {place : Path}
    (h : ∀ name part, (.text name, part) ∈ bs →
      scopePart tree (ofName name) = (place ++ [name], part)) :
    ((Scope.entryNames (.map bs)).map ofName).map (scopePart tree) =
      (bs.flatMap (entryParts onlyPart)).map (placed place) := by
  induction bs with
  | nil => rfl
  | cons e bs ih =>
    have hrest := ih fun name part hmem => h name part (List.mem_cons_of_mem e hmem)
    rw [List.flatMap_cons, List.map_append, ← hrest]
    obtain ⟨key, part⟩ := e
    cases key with
    | text name =>
      show scopePart tree (ofName name) :: _ = _
      rw [h name part List.mem_cons_self]
      rfl
    | _ => rfl

/-- The scopes of styles with elements are the styles and the elements. -/
theorem map_withElements {tree v : Value} (hv : v.IsTree) {place : Path} (hne : place ≠ [])
    (hwalk : ∀ rest, walk? (place ++ rest) tree = walk? rest v) (whole : Scope)
    (hwhole : whole.path = place) (ofName : String → Scope)
    (hname : ∀ name, (ofName name).path = place ++ ["elements", name]) :
    (whole :: ((v.entryNamed? "elements").elim [] Scope.entryNames).map ofName).map
      (scopePart tree) = (blockParts v).map (placed place) := by
  have hroot : scopePart tree whole = (place, v) := by
    rw [← hwhole]
    refine scopePart_eq (hwhole ▸ hne) ?_
    rw [hwhole, ← List.append_nil place]
    exact hwalk []
  have helement : ∀ name part, (.text name, part) ∈ v.under "elements" →
      scopePart tree (ofName name) = (place ++ ["elements"] ++ [name], part) := by
    intro name part hpart
    rw [List.append_assoc, List.cons_append, List.nil_append, ← hname name]
    refine scopePart_eq (by simp [hname]) ?_
    rw [hname, hwalk, walk?_of_mem_under hv hpart]
    rfl
  have helements : (((v.entryNamed? "elements").elim [] Scope.entryNames).map ofName).map
      (scopePart tree) = ((v.under "elements").flatMap (entryParts onlyPart)).map
        (placed (place ++ ["elements"])) := by
    rw [Value.under] at helement ⊢
    cases hpart : v.entryNamed? "elements" with
    | none => rfl
    | some part =>
      rw [hpart] at helement
      cases part with
      | map bs mark => exact map_entryNames helement
      | _ => rfl
  rw [List.map_cons, hroot, helements, blockParts, partsWithGroup, List.map_append, List.map_map]
  refine congr (congrArg List.cons (Prod.ext (List.append_nil place).symm rfl)) ?_
  refine List.map_congr_left fun part _ => ?_
  rw [placed, List.append_assoc]
  rfl

section Scopes

variable (hes : es.AreTrees)
include hes

theorem isTree_under (name : String) : Value.IsTree (.map (under name es)) :=
  Value.isTree_map.mpr ⟨rfl, Value.areTrees_under (Value.isTree_map.mpr ⟨rfl, hes⟩) name⟩

/-- What is found in a section. -/
theorem walk?_section {name : String} (hfilled : Entries.Filled name es)
    (hne : under name es ≠ []) (rest : Path) :
    walk? (name :: rest) (.map es) = walk? rest (.map (under name es)) := by
  rcases hfilled.cases with ⟨-, hempty⟩ | ⟨inner, mark, hsome, hunder, -⟩
  · exact absurd hempty hne
  · obtain ⟨rfl, -⟩ := Value.isTree_map.mp (hes.named? hsome)
    rw [Value.walk?_cons_map, hsome, hunder, Option.bind_some]

/-- The scopes of a block are its part of the styles and its elements. -/
theorem map_ofStyledEntry {e : Key × Value} (he : e ∈ under "blocks" (under "styles" es))
    (table : BlockTable) : (Scope.ofStyledEntry table e).map (scopePart (.map es)) =
      (entryParts blockParts e).map (placed ["styles", "blocks"]) := by
  obtain ⟨key, v⟩ := e
  cases key with
  | text name =>
    have hstyles := isTree_under hes "styles"
    have hblock : v.IsTree := (Value.areTrees_under hstyles "blocks").value _ he
    have hwalk : ∀ rest, walk? (["styles", "blocks", name] ++ rest) (.map es) = walk? rest v := by
      intro rest
      show walk? ("styles" :: "blocks" :: name :: rest) (.map es) = _
      rw [Entries.walk?_under (List.cons_ne_nil _ _)]
      exact walk?_of_mem_under hstyles he rest
    have hscopes := map_withElements hblock (List.cons_ne_nil _ _) hwalk
      { path := ["styles", "blocks", name]
        selector := (table.find? name).map (·.selector)
        duotone := (table.find? name).bind (·.duotone) } rfl
      (fun element =>
        { path := ["styles", "blocks", name, "elements", element]
          selector := (table.find? name).bind fun m => m.elements.lookup element })
      fun _ => rfl
    rw [Scope.ofStyledEntry, entryParts, List.map_map]
    refine Eq.trans ?_ hscopes
    dsimp only [Scope.ofStyledBlock]
    cases v.entryNamed? "elements" <;> rfl
  | _ => rfl

/-- **The scopes of styles** are the scopes by their paths. -/
theorem map_styleScopes (hfilled : Entries.Filled "styles" es) (table : BlockTable) :
    (styleScopes table (.map es)).map (scopePart (.map es)) =
      if under "styles" es = [] then []
      else (stylesParts (.map (under "styles" es))).map (below "styles") := by
  rw [Scope.styleScopes_eq hfilled]
  split
  next => rfl
  next hne =>
    have hroot := map_withElements (isTree_under hes "styles") (List.cons_ne_nil "styles" [])
      (walk?_section hes hfilled hne) ⟨["styles"], some rootSelector, none⟩ rfl
      (fun name => { path := ["styles", "elements", name], selector := elements.lookup name })
      fun _ => rfl
    have hblocks : ((under "blocks" (under "styles" es)).flatMap
        (Scope.ofStyledEntry table)).map (scopePart (.map es)) =
          ((under "blocks" (under "styles" es)).flatMap (entryParts blockParts)).map
            (placed ["styles", "blocks"]) := by
      rw [List.map_flatMap, List.map_flatMap]
      exact congrArg List.flatten (List.map_congr_left fun e he => map_ofStyledEntry hes he table)
    rw [stylesParts, partsWithGroup, List.map_append, List.map_map, ← List.cons_append,
      List.map_append, hblocks]
    refine congr (congrArg HAppend.hAppend (Eq.trans ?_ hroot)) rfl
    rw [Scope.ofRootElements]
    cases (Value.map (under "styles" es)).entryNamed? "elements" <;> rfl

/-- **The scopes of settings** are the scopes by their paths. -/
theorem map_settingScopes (hfilled : Entries.Filled "settings" es) (table : BlockTable) :
    (settingScopes table (.map es)).map (scopePart (.map es)) =
      if under "settings" es = [] then []
      else (settingsParts (.map (under "settings" es))).map (below "settings") := by
  rw [Scope.settingScopes_eq hfilled]
  split
  next => rfl
  next hne =>
    have hsettings := isTree_under hes "settings"
    have hwalk := walk?_section hes hfilled hne
    have hroot : scopePart (.map es) ⟨["settings"], some rootSelector, none⟩ =
        (["settings"], .map (under "settings" es)) :=
      scopePart_eq (List.cons_ne_nil _ _) (hwalk [])
    have hblocks : ((under "blocks" (under "settings" es)).flatMap
        (Scope.ofSettledEntry table)).map (scopePart (.map es)) =
          ((under "blocks" (under "settings" es)).flatMap (entryParts onlyPart)).map
            (placed ["settings", "blocks"]) := by
      rw [List.map_flatMap, List.map_flatMap]
      refine congrArg List.flatten (List.map_congr_left fun e he => ?_)
      obtain ⟨key, v⟩ := e
      cases key with
      | text name =>
        have hblock : scopePart (.map es) (Scope.ofSettledBlock table name) =
            (["settings", "blocks", name], v) :=
          scopePart_eq (List.cons_ne_nil _ _)
            ((hwalk ["blocks", name]).trans (walk?_of_mem_under hsettings he []))
        exact congrArg (fun part => [part]) hblock
      | _ => rfl
    rw [settingsParts, partsWithGroup, List.map_append, List.map_map, List.map_cons, hroot,
      hblocks]
    rfl

end Scopes

/-! ### Writing the sections -/

section Writing

variable {names : List String} {parts : Value → List (Path × Value)}
  {content : Value → Except Refusal Entries} {name : String} {base : Entries}

/-- What is written of the scopes of a section is its content, under the name of the section. -/
theorem foldlM_keepScope {scopes : List Scope} (hclean : IsCleaner names clean)
    (hcontent : IsContent clean parts content) (hnothing : content (.map []) = .ok [])
    (hes : es.AreTrees) (hne : ∀ scope ∈ scopes, scope.path ≠ [])
    (hscopes : scopes.map (scopePart (.map es)) =
      if under name es = [] then [] else (parts (.map (under name es))).map (below name))
    (hbase : Entries.named? name base = none) :
    scopes.foldlM (keepScope clean (.map es)) base =
      (content (.map (under name es))).map (Entries.within name base) := by
  have hparts : scopes.foldlM (keepScope clean (.map es)) base =
      (scopes.map (scopePart (.map es))).foldlM (keepPart clean) base := by
    rw [List.foldlM_map]
    exact Result.foldlM_congr
      (fun kept scope hscope => keepScope_eq hclean (hne scope hscope) (.map es) kept) base
  rw [hparts, hscopes]
  split
  next hempty =>
    rw [hempty, hnothing]
    rfl
  next =>
    have hbelow := foldlM_below hbase clean (parts (.map (under name es))) []
    rwa [Entries.within_nil, hcontent _ (isTree_under hes name)] at hbelow

end Writing

section Sections

variable {blocks elements : List String} {base : Entries} (hes : es.AreTrees)
  (hfits : Schema.Fits (Schema.wholeTheme blocks elements) es)
include hes hfits

/-- What is written of the scopes of styles is what remains of the styles, under their name. -/
theorem foldlM_styleScopes (hbase : Entries.named? "styles" base = none) (table : BlockTable) :
    (styleScopes table (.map es)).foldlM (keepScope (cleanStyles check) (.map es)) base =
      (stylesContent check (.map (under "styles" es))).map (Entries.within "styles" base) := by
  refine foldlM_keepScope (isCleaner_cleanStyles check) (isContent_stylesContent check)
    ((isCleaner_stylesContent check).nothing fun _ _ => rfl) hes (fun scope hscope => ?_)
    (map_styleScopes hes (hfits.filled rfl) table) hbase
  exact (stylePlace_of_mem_styleScopes hscope).ne_nil

/-- What is written of the scopes of settings is what remains of the settings, under their name. -/
theorem foldlM_settingScopes (hbase : Entries.named? "settings" base = none)
    (table : BlockTable) :
    (settingScopes table (.map es)).foldlM (keepScope (cleanSettings check) (.map es)) base =
      (settingsContent check (.map (under "settings" es))).map
        (Entries.within "settings" base) := by
  refine foldlM_keepScope (isCleaner_cleanSettings check) (isContent_settingsContent check)
    ((isCleaner_settingsContent check).nothing fun _ _ => rfl) hes (fun scope hscope => ?_)
    (map_settingScopes hes (hfits.filled rfl) table) hbase
  exact ((mem_scopePaths_iff hfits table).mp (List.mem_map_of_mem hscope)).1.ne_nil

end Sections

/-- The sections that remain, under their names. -/
def sections (styles settings : Entries) : Entries :=
  Entries.within "settings" (Entries.within "styles" [] styles) settings

/-- The entries of a tree with what remains of its sections. -/
def withSections (styles settings es : Entries) : Entries :=
  ["styles", "settings"].foldl (replaceSection (sections styles settings)) es

theorem distinct_replaceSection (hd : es.Distinct) (kept : Entries) (name : String) :
    (replaceSection kept es name).Distinct := by
  rw [replaceSection]
  split
  · split
    · exact hd.insert _ _
    · exact hd.erase _
  · exact hd.erase _

theorem named?_sections_styles (styles settings : Entries) :
    Entries.named? "styles" (sections styles settings) =
      if styles = [] then none else some (.map styles) := by
  rw [sections, Entries.named?_within_of_ne (by decide), Entries.named?_within_self rfl]

theorem named?_sections_settings (styles settings : Entries) :
    Entries.named? "settings" (sections styles settings) =
      if settings = [] then none else some (.map settings) := by
  rw [sections, Entries.named?_within_self (Entries.named?_within_of_ne (by decide) [] styles)]

/-- Entries of which there are some count as true. -/
theorem filter_truthy (inner : Entries) :
    (if inner = [] then none else some (Value.map inner)).filter Value.truthy =
      if inner = [] then none else some (.map inner) := by
  cases inner <;> rfl

/-- The sections of a tree are what remains of them; nothing else changes. -/
theorem named?_withSections (hd : es.Distinct) (styles settings : Entries) (name : String) :
    Entries.named? name (withSections styles settings es) =
      if name = "styles" then if styles = [] then none else some (.map styles)
      else if name = "settings" then if settings = [] then none else some (.map settings)
      else Entries.named? name es := by
  have hfirst := distinct_replaceSection hd (sections styles settings) "styles"
  show Entries.named? name (replaceSection (sections styles settings)
    (replaceSection (sections styles settings) es "styles") "settings") = _
  rw [named?_replaceSection hfirst, named?_replaceSection hd, named?_sections_styles,
    named?_sections_settings, filter_truthy, filter_truthy]
  by_cases hstyles : name = "styles"
  · rw [if_pos hstyles, if_pos hstyles, if_neg (by rw [hstyles]; decide)]
  · rw [if_neg hstyles, if_neg hstyles]

theorem under_styles_withSections (hd : es.Distinct) (styles settings : Entries) :
    under "styles" (withSections styles settings es) = styles := by
  rw [under, named?_withSections hd, if_pos rfl]
  cases styles <;> rfl

theorem under_settings_withSections (hd : es.Distinct) (styles settings : Entries) :
    under "settings" (withSections styles settings es) = settings := by
  rw [under, named?_withSections hd, if_neg (by decide), if_pos rfl]
  cases settings <;> rfl

/-- **Cleaning is replacing the sections by what remains of them.** -/
theorem clean_eq {raw : Value} (hraw : raw.IsTree) (table : BlockTable) (check : SafetyCheck) :
    Theme.clean table check raw = do
      let es := sanitize table.names elementNames (Migration.run raw)
      let styles ← stylesContent check (.map (under "styles" es))
      let settings ← settingsContent check (.map (under "settings" es))
      return .map (withSections styles settings es) := by
  have hfits := fits_sanitize table.names hraw
  have hes := areTrees_sanitize table.names hraw
  rw [Theme.clean]
  dsimp only
  rw [foldlM_styleScopes hes hfits rfl]
  cases stylesContent check (.map (under "styles" _)) with
  | error e => rfl
  | ok styles =>
    have hbase : Entries.named? "settings" (Entries.within "styles" [] styles) = none :=
      Entries.named?_within_of_ne (by decide) [] styles
    dsimp only [Except.map, bind, Except.bind]
    rw [foldlM_settingScopes hes hfits hbase]
    cases settingsContent check (.map (under "settings" _)) with
    | error e => rfl
    | ok settings => rfl

end Theme

end ThemeSheet
