import ThemeSheet.Proofs.Style.Nodes
import ThemeSheet.Proofs.Style.Rows
import ThemeSheet.Proofs.Theme.Selection
import ThemeSheet.Proofs.Tree.Decidable

/-!
# The rules of the styles

The styles of a theme are written rule by rule: for every part of the tree that holds styles, in the
order of these parts, the declarations of the part under its selector, and those that apply a filter
under that of its duotone target. A part without a selector is written nowhere, and neither is a
rule without declarations.

The parts are the places of styles at which something stands, each once. The declarations of a part
are those of the rows of the table of properties that have a value there, in the order of the table.
So of what the tree declares nothing is lost, nothing is written twice, and nothing stands where it
does not belong.

## Main definitions

* `rulesOf`, the rules that are written of some pieces;
* `nodeRules`, the rules of the declarations of a part.

## Main results

* `Theme.exists_stylePieces_iff`: when the styles can be written;
* `Theme.style_rules`: the rules of the styles.
-/

namespace ThemeSheet

variable {table : BlockTable} {place : Path} {pieces : List Piece}

/-! ### Rules -/

/-- The rules that are written of some pieces: those that have declarations. Fixed texts are left
aside. -/
def rulesOf (pieces : List Piece) : List Rule :=
  pieces.filterMap fun piece => match piece with
    | .rule r => if r.declarations.isEmpty then none else some r
    | .fixed _ => none

/-- The rules of the declarations of the styles at a path. The declarations of filters stand apart,
under the selector of the duotone target, if there is one that is not empty. -/
def nodeRules (table : BlockTable) (path : Path) (ds : List Declaration) : List Rule :=
  match styleSelector? table path with
  | none => []
  | some selector =>
    (⟨selector, ds.filter fun d => d.name ≠ "filter"⟩ ::
      match styleDuotone? table path with
      | none => []
      | some target =>
        if target = "" then []
        else [⟨Selector.scope selector target, ds.filter fun d => d.name = "filter"⟩]).filter
      fun r => !r.declarations.isEmpty

theorem rulesOf_append (pieces more : List Piece) :
    rulesOf (pieces ++ more) = rulesOf pieces ++ rulesOf more :=
  List.filterMap_append

theorem rulesOf_fixed_cons (text : String) (pieces : List Piece) :
    rulesOf (.fixed text :: pieces) = rulesOf pieces := rfl

/-- The rules that are written of rules are those with declarations. -/
theorem rulesOf_map_rule (rules : List Rule) :
    rulesOf (rules.map .rule) = rules.filter fun r => !r.declarations.isEmpty := by
  rw [rulesOf, List.filterMap_map, ← List.filterMap_eq_filter]
  refine List.filterMap_congr fun r _ => ?_
  cases h : r.declarations <;> simp [h, Option.guard]

namespace Theme

variable {theme : Theme}

/-! ### One part -/

/-- The declarations that apply no filter are told by their names. -/
theorem filter_not_isFilter (ds : List Declaration) :
    (ds.filter fun d => !isFilter d) = ds.filter fun d => d.name ≠ "filter" := by
  simp only [isFilter, ne_eq, decide_not]

/-- The rules of a scope that has a selector. -/
theorem rulesOf_scopeRules {selector : String}
    (hselector : styleSelector? table place = some selector) (ds : List Declaration) :
    rulesOf (scopeRules selector (styleDuotone? table place) ds) = nodeRules table place ds := by
  unfold scopeRules nodeRules
  rw [hselector, filter_not_isFilter]
  cases styleDuotone? table place with
  | none => exact rulesOf_map_rule [_]
  | some target =>
    by_cases htarget : target = ""
    · subst htarget
      exact rulesOf_map_rule [_]
    · have hne : target.isEmpty = false := by rwa [Bool.eq_false_iff, ne_eq, String.isEmpty_iff]
      simp only [hne, Bool.false_or, if_neg htarget]
      -- An empty rule of filters is not made here, and not written there.
      have hdrop : ∀ own filters : Rule, filters.declarations.isEmpty = true →
          [own, filters].filter (fun r => !r.declarations.isEmpty) =
            [own].filter fun r => !r.declarations.isEmpty := by
        intro own filters hempty
        simp only [List.filter_cons, List.filter_nil, hempty, Bool.not_true,
          if_neg Bool.false_ne_true]
      split
      next hempty => exact (rulesOf_map_rule [_]).trans (hdrop _ _ hempty).symm
      next => exact rulesOf_map_rule [_, _]

/-- The declarations of the styles at a place; none where they cannot be made. -/
def declaredAt (theme : Theme) (place : Path) : List Declaration :=
  (styleDeclarations (theme.tree.getD place .emptyMap) theme.settings).toOption.getD []

/-- **What is written for a part**: nothing without a selector, and otherwise the rules of its
declarations, with the fixed rules around them if the selector is that of the root. -/
theorem scopeStyles_cases {group : List Piece}
    (h : theme.scopeStyles (scopeAt table place) = .ok group) :
    (styleSelector? table place = none ∧ group = []) ∨
    ∃ selector ds, styleSelector? table place = some selector ∧
      styleDeclarations (theme.tree.getD place .emptyMap) theme.settings = .ok ds ∧
      group = if selector = rootSelector then
        .fixed rootReset :: scopeRules selector (styleDuotone? table place) ds ++
          .fixed alignments :: if theme.hasBlockGap then [.fixed blockGapFlow] else []
      else scopeRules selector (styleDuotone? table place) ds := by
  have hscope : (scopeAt table place).selector = styleSelector? table place := rfl
  rw [scopeStyles, hscope] at h
  cases hselector : styleSelector? table place with
  | none =>
    rw [hselector] at h
    cases h
    exact .inl ⟨rfl, rfl⟩
  | some selector =>
    rw [hselector] at h
    obtain ⟨ds, hds, h⟩ := Result.exists_of_bind h
    refine .inr ⟨selector, ds, rfl, hds, ?_⟩
    split at h
    next hroot =>
      cases h
      rw [if_pos hroot]
      rfl
    next hroot =>
      cases h
      rw [if_neg hroot]
      rfl

/-- **The rules of a part** are those of its declarations. -/
theorem rulesOf_scopeStyles {group : List Piece}
    (h : theme.scopeStyles (scopeAt table place) = .ok group) :
    rulesOf group = nodeRules table place (theme.declaredAt place) := by
  rcases scopeStyles_cases h with ⟨hselector, rfl⟩ | ⟨selector, ds, hselector, hds, rfl⟩
  · rw [nodeRules, hselector]
    rfl
  · have hdeclared : theme.declaredAt place = ds := by
      rw [declaredAt, hds]
      rfl
    rw [hdeclared, ← rulesOf_scopeRules hselector]
    -- The fixed rules around those of the root are left aside.
    split
    · rw [List.cons_append, rulesOf_fixed_cons, rulesOf_append, rulesOf_fixed_cons]
      cases theme.hasBlockGap <;> exact List.append_nil _
    · rfl

/-- The styles of a part can be written if it has no selector, or declarations that can be made. -/
theorem exists_scopeStyles_iff : (∃ group, theme.scopeStyles (scopeAt table place) = .ok group) ↔
    ((styleSelector? table place).isSome = true → ∃ ds,
      styleDeclarations (theme.tree.getD place .emptyMap) theme.settings = .ok ds) := by
  rw [scopeStyles]
  cases hselector : styleSelector? table place with
  | none =>
    have hnone : (scopeAt table place).selector = none := hselector
    rw [hnone]
    exact iff_of_true ⟨[], rfl⟩ fun h => by cases h
  | some selector =>
    have hsome : (scopeAt table place).selector = some selector := hselector
    rw [hsome]
    constructor
    · rintro ⟨group, h⟩ -
      obtain ⟨ds, hds, -⟩ := Result.exists_of_bind h
      exact ⟨ds, hds⟩
    · intro h
      obtain ⟨ds, hds⟩ := h rfl
      have hpart : theme.partOf (scopeAt table place) = theme.tree.getD place .emptyMap := rfl
      dsimp only
      rw [hpart, hds]
      dsimp only [bind, Except.bind]
      split <;> exact ⟨_, rfl⟩

/-! ### All parts -/

/-- The styles of a theme are a mapping. -/
theorem Made.isMap_styles (h : Made theme) :
    (theme.tree.at? ["styles"]).all Value.isMap = true := by
  obtain ⟨blocks, es, htree, hfits⟩ := h.exists_fits
  rw [htree, Value.at?_cons, Value.walk?_singleton_map]
  have hfilled : Entries.Filled "styles" es := hfits.filled rfl
  rcases hfilled.cases with ⟨hnone, -⟩ | ⟨inner, mark, hsome, -⟩
  · rw [hnone]
    rfl
  · rw [hsome]
    rfl

/-- **When the styles can be written**: if all values of rows of parts with a selector can be. -/
theorem exists_stylePieces_iff (hmade : Made theme) (table : BlockTable) :
    (∃ pieces, theme.stylePieces table = .ok pieces) ↔
      ∀ place ∈ stylePaths theme.tree, (styleSelector? table place).isSome = true →
        ∀ p v, IsRow theme.tree place p v → ∃ text, cssText (writtenOut v) = .ok text := by
  have hne : ∀ place ∈ stylePaths theme.tree, place ≠ [] := fun place hplace =>
    ((mem_stylePaths_iff hmade.isTree hmade.isMap_styles).mp hplace).1.ne_nil
  have hpart : ∀ place ∈ stylePaths theme.tree,
      (∃ group, theme.scopeStyles (scopeAt table place) = .ok group) ↔
        ((styleSelector? table place).isSome = true →
          ∀ p v, IsRow theme.tree place p v → ∃ text, cssText (writtenOut v) = .ok text) := by
    intro place hplace
    rw [exists_scopeStyles_iff, exists_declarations_iff (hne place hplace)]
  rw [stylePieces, styleScopes_eq_map hmade.isTree]
  constructor
  · rintro ⟨pieces, h⟩ place hplace
    obtain ⟨groups, hgroups, -⟩ := Result.exists_of_bind h
    obtain ⟨group, -, hgroup⟩ := Result.exists_of_mapM hgroups (List.mem_map_of_mem hplace)
    exact (hpart place hplace).mp ⟨group, hgroup⟩
  · intro h
    have hall : ∀ scope ∈ (stylePaths theme.tree).map (scopeAt table), ∃ group,
        theme.scopeStyles scope = .ok group := by
      intro scope hscope
      obtain ⟨place, hplace, rfl⟩ := List.mem_map.mp hscope
      exact (hpart place hplace).mpr (h place hplace)
    obtain ⟨groups, hgroups⟩ := Result.exists_mapM hall
    exact ⟨groups.flatten, by rw [hgroups]; rfl⟩

/-- What is picked out of the section of styles is picked out of what each part is written as. -/
theorem filterMap_stylePieces {β : Type} {f : Piece → Option β} {g : Path → List β}
    (htree : theme.tree.IsTree) (h : theme.stylePieces table = .ok pieces)
    (hparts : ∀ place group, theme.scopeStyles (scopeAt table place) = .ok group →
      group.filterMap f = g place) :
    pieces.filterMap f = (stylePaths theme.tree).flatMap g := by
  rw [stylePieces, styleScopes_eq_map htree] at h
  obtain ⟨groups, hgroups, h⟩ := Result.exists_of_bind h
  cases h
  have hpicked : groups.map (List.filterMap f) =
      ((stylePaths theme.tree).map (scopeAt table)).map fun scope => g scope.path := by
    refine Result.map_eq_map hgroups fun scope hscope group hgroup => ?_
    obtain ⟨place, -, rfl⟩ := List.mem_map.mp hscope
    exact hparts place group hgroup
  rw [List.filterMap_flatten, hpicked, List.map_map, ← List.flatMap_def]
  rfl

/-- The rules of the styles, part by part. -/
theorem rulesOf_stylePieces (htree : theme.tree.IsTree)
    (h : theme.stylePieces table = .ok pieces) :
    rulesOf pieces = (stylePaths theme.tree).flatMap fun place =>
      nodeRules table place (theme.declaredAt place) :=
  filterMap_stylePieces htree h fun _ _ hgroup => rulesOf_scopeStyles hgroup

/-- **Of the styles nothing is lost, nothing is written twice, and nothing is misplaced.** For every
theme that has been made, and every table of blocks:

* the parts that hold styles are listed once each, and they are the places of styles at which
  something stands;
* the styles can be written exactly if the values can be that the rows of parts with a selector
  declare;
* the rules that are written then are, part by part, those of the declarations of the part, and
  these are the declarations of its rows, in the order of the table of properties. -/
theorem style_rules (hmade : Made theme) (table : BlockTable) :
    (stylePaths theme.tree).Nodup ∧
    (∀ place, place ∈ stylePaths theme.tree ↔
      StylePlace place ∧ (theme.tree.at? place).isSome = true) ∧
    ((∃ pieces, theme.stylePieces table = .ok pieces) ↔
      ∀ place ∈ stylePaths theme.tree, (styleSelector? table place).isSome = true →
        ∀ p v, IsRow theme.tree place p v → ∃ text, cssText (writtenOut v) = .ok text) ∧
    ∀ pieces, theme.stylePieces table = .ok pieces → ∃ declared : Path → List Declaration,
      (∀ place ∈ stylePaths theme.tree, (styleSelector? table place).isSome = true →
        IsDeclared theme.tree place (declared place)) ∧
      rulesOf pieces =
        (stylePaths theme.tree).flatMap fun place => nodeRules table place (declared place) := by
  have hmem := @mem_stylePaths_iff _ hmade.isTree hmade.isMap_styles
  refine ⟨nodup_stylePaths hmade.isTree, fun place => hmem, exists_stylePieces_iff hmade table,
    fun pieces h => ⟨theme.declaredAt, fun place hplace hselector => ?_,
      rulesOf_stylePieces hmade.isTree h⟩⟩
  have hne : place ≠ [] := (hmem.mp hplace).1.ne_nil
  have hwritten := (exists_stylePieces_iff hmade table).mp ⟨pieces, h⟩ place hplace hselector
  obtain ⟨ds, hds⟩ := (exists_declarations_iff hne).mpr hwritten
  have hdeclared : theme.declaredAt place = ds := by
    rw [declaredAt, hds]
    rfl
  rw [hdeclared]
  exact isDeclared_of_styleDeclarations hne hds

/-- A theme with a heading, an image with a filter and a link in it, and a block that is registered
no more. The block gap is not declared, as the settings have none; a truth value and an empty text
are not declared either; the filter of the image has a rule of its own. -/
theorem style_rules_image :
    let color := fun name => (Key.text "color", Value.map [(.text "text", .text name)])
    let raw := Value.map [(.text "styles", .map [
      (.text "spacing", .map [(.text "blockGap", .text "1em"),
        (.text "margin", .map [(.text "top", .int 0), (.text "left", .bool true)])]),
      color "red",
      (.text "blocks", .map [
        (.text "core/gone", .map [color "blue"]),
        (.text "core/image", .map [color "",
          (.text "filter", .map [(.text "duotone", .text "var:preset|duotone|x")]),
          (.text "elements", .map [(.text "link", .map [color "green"])])])]),
      (.text "elements", .map [(.text "h1", .map [color "gray"])])])]
    let theme := construct ["core/image", "core/gone"] "theme" raw
    let table := [("core/image", BlockMetadata.mk "img" (some ".a, .b") [("link", "img a")])]
    Made theme ∧ ∃ pieces, ∃ declared : Path → List Declaration,
      theme.stylePieces table = .ok pieces ∧
      IsDeclared theme.tree ["styles"] (declared ["styles"]) ∧
      rulesOf pieces = (stylePaths theme.tree).flatMap (fun place =>
        nodeRules table place (declared place)) ∧
      rulesOf pieces = [
        ⟨"body", [⟨"color", "red"⟩, ⟨"margin-top", "0"⟩]⟩,
        ⟨"h1", [⟨"color", "gray"⟩]⟩,
        ⟨"img .a, img .b", [⟨"filter", "var(--wp--preset--duotone--x)"⟩]⟩,
        ⟨"img a", [⟨"color", "green"⟩]⟩] := by
  intro color raw theme table
  have hmade : Made theme := .construct _ _ (by decide)
  have hroot : ["styles"] ∈ stylePaths theme.tree := by decide +kernel
  have hrules : (theme.stylePieces table).map rulesOf = .ok [
      ⟨"body", [⟨"color", "red"⟩, ⟨"margin-top", "0"⟩]⟩,
      ⟨"h1", [⟨"color", "gray"⟩]⟩,
      ⟨"img .a, img .b", [⟨"filter", "var(--wp--preset--duotone--x)"⟩]⟩,
      ⟨"img a", [⟨"color", "green"⟩]⟩] := by decide +kernel
  obtain ⟨pieces, hpieces, hwritten⟩ := Result.exists_of_map hrules
  obtain ⟨-, -, -, hall⟩ := style_rules hmade table
  obtain ⟨declared, hdeclared, hparts⟩ := hall pieces hpieces
  exact ⟨hmade, pieces, declared, hpieces, hdeclared _ hroot rfl, hparts, hwritten⟩

end Theme

end ThemeSheet
