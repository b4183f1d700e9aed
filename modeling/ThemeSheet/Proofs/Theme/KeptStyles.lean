import ThemeSheet.Proofs.Theme.SectionLeaves
import ThemeSheet.Proofs.Tree.Decidable

/-!
# The values that cleaning keeps

The leaves of cleaned styles are values of the tree that was cleaned, at the places where they
stood: those at the paths of properties whose declarations pass, in all the scopes there are. No
other value is kept, and of the values that are declared none is lost, but for one property: what a
setting decides about is declared only with settings, and cleaning declares the values of a scope
without any. So the block gap is never kept, whatever the check says.

## Main definitions

* `Theme.Judged`, of trees about which a check has something to say.

## Main results

* `Theme.at?_clean_iff`: the leaves of cleaned styles;
* `Theme.exists_clean`: what can be judged is cleaned;
* `Theme.clean_keeps`: the values that are kept.
-/

namespace ThemeSheet

open Value (walk?)

namespace Theme

variable {check : SafetyCheck} {table : BlockTable} {clean : Value → Except Refusal Entries}
  {q : Path} {w : Value}

theorem holdsLeaves_stylesContent (check : SafetyCheck) :
    HoldsLeaves (cleanStyles check) stylesParts (stylesContent check) := by
  have hstyles := holdsLeaves_onlyPart (cleanStyles check)
  have hblock : HoldsLeaves (cleanStyles check) blockParts (blockContent check) :=
    hstyles.withGroup hstyles fun v kept h =>
      (isCleaner_cleanStyles check).apart v kept h "elements" (by decide)
  exact hblock.withGroup hblock fun v kept h =>
    (isCleaner_blockContent check).apart v kept h "blocks" (by decide)

/-! ### Leaves of a scope -/

/-- The leaves of what remains of styles are the values that are kept. -/
theorem walk?_cleanStyles_iff {styles : Value} {left : Entries}
    (h : cleanStyles check styles = .ok left) (hq : q ≠ []) (hw : w.isLeaf = true) :
    walk? q (.map left) = some w ↔ ∃ p ∈ properties, q = p.path ∧ p.Kept check styles w := by
  rw [cleanStyles_eq] at h
  obtain ⟨writes, hwrites, rfl⟩ := Result.exists_of_map h
  have hleaves := areLeaves_styleWrites hwrites
  cases hmap : w.isMap with
  | false => rw [hleaves.walk?_iff hmap, mem_styleWrites_iff hwrites]
  | true =>
    refine iff_of_false (fun hwalk => ?_) ?_
    · cases w with
      | map inner mark =>
        exact Entries.ne_nil_of_walk?_setAll hleaves hq hwalk (Value.isLeaf_map.mp hw)
      | _ => cases hmap
    · rintro ⟨p, -, -, hkept⟩
      rw [hkept.isMap] at hmap
      cases hmap

/-- The leaves of the styles are the values that are kept. -/
theorem leavesAre_styles (check : SafetyCheck) :
    LeavesAre (fun styles q w => ∃ p ∈ properties, q = p.path ∧ p.Kept check styles w)
      (cleanStyles check) stylesParts (stylesContent check) where
  written := isContent_stylesContent check
  leaves := holdsLeaves_stylesContent check
  nothing := (isCleaner_stylesContent check).nothing fun _ _ => rfl
  ne_nil := by
    rintro styles _ w ⟨p, hp, rfl, -⟩
    exact properties_path_ne_nil p hp
  scope _ _ _ _ := walk?_cleanStyles_iff

/-- **The leaves of cleaned styles** are the values that are kept of the scopes. -/
theorem at?_clean_iff {raw cleaned : Value} (hraw : raw.IsTree)
    (h : Theme.clean table check raw = .ok cleaned) (hw : w.isLeaf = true) :
    cleaned.at? ("styles" :: q) = some w ↔ ∃ scope ∈ styleScopes table (pruned table raw),
      ∃ p ∈ properties, "styles" :: q = scope.path ++ p.path ∧
        p.Kept check ((pruned table raw).getD scope.path .emptyMap) w := by
  have hfits := fits_sanitize table.names hraw
  have hes := areTrees_sanitize table.names hraw
  rw [clean_eq hraw] at h
  obtain ⟨styles, hstyles, h⟩ := Result.exists_of_bind h
  obtain ⟨settings, -, h⟩ := Result.exists_of_bind h
  cases h
  rw [pruned, Value.at?_cons, Value.walk?_cons_map, named?_withSections hfits.distinct, if_pos rfl,
    (leavesAre_styles check).bind_walk?_iff hes (map_styleScopes hes (hfits.filled rfl) table)
      hstyles hw]
  refine exists_congr fun scope => and_congr_right fun _ => ?_
  constructor
  · rintro ⟨_, heq, p, hp, rfl, hkept⟩
    exact ⟨p, hp, heq, hkept⟩
  · rintro ⟨p, hp, heq, hkept⟩
    exact ⟨_, heq, p, hp, rfl, hkept⟩

/-! ### What can be judged -/

/-- A check has something to say about all that cleaning asks it: every value of the styles that is
declared can be written and is judged, and so is every item of the lists of presets. -/
structure Judged (table : BlockTable) (check : SafetyCheck) (tree : Value) : Prop where
  styles : ∀ scope ∈ styleScopes table tree, ∀ p ∈ properties, ∀ v,
    tree.at? (scope.path ++ p.path) = some v → p.gate? = none → isMissing v = false →
      ∃ text passed, cssText (writtenOut v) = .ok text ∧ check p.name (.text text) = .ok passed
  presets : ∀ scope ∈ settingScopes [] tree, ∀ category, ∀ q ∈ listPlaces category,
    ∀ items mark, tree.at? (scope.path ++ q) = some (.list items mark) →
      ∀ item ∈ items, ∃ safe, isSafeItem check category item = .ok safe

theorem exists_cleanStyles {styles : Value} (h : ∀ p ∈ properties, ∀ v,
    styles.at? p.path = some v → p.gate? = none → isMissing v = false →
      ∃ text passed, cssText (writtenOut v) = .ok text ∧ check p.name (.text text) = .ok passed) :
    ∃ left, cleanStyles check styles = .ok left := by
  have hwritten : ∀ p ∈ properties, ∀ v, p.declared? styles .null = some v →
      ∃ text, cssText v = .ok text := by
    intro p hp v hv
    obtain ⟨w, hw, hallowed, hmissing, rfl⟩ := Property.declared?_eq_some_iff.mp hv
    rw [Property.allowed_null, Option.isNone_iff_eq_none] at hallowed
    obtain ⟨text, passed, htext, -⟩ := h p hp w hw hallowed hmissing
    exact ⟨text, htext⟩
  obtain ⟨ds, hds⟩ := exists_styleDeclarations_iff.mpr hwritten
  have hjudged : ∀ d ∈ ds, ∃ passed, check d.name (.text d.value) = .ok passed := by
    intro d hd
    obtain ⟨p, hp, v, hv, hallowed, hmissing, hname, htext⟩ :=
      (mem_styleDeclarations_iff hds).mp hd
    rw [Property.allowed_null, Option.isNone_iff_eq_none] at hallowed
    obtain ⟨text, passed, htext', hpassed⟩ := h p hp v hv hallowed hmissing
    cases htext.symm.trans htext'
    exact ⟨passed, hname ▸ hpassed⟩
  obtain ⟨kept, hkept⟩ := Result.exists_keeping (passing check) rfl (fun _ _ => rfl) hjudged
  refine ⟨kept.foldl (keepValue styles) [], ?_⟩
  rw [cleanStyles, hds]
  show (do let kept ← passing check ds; return kept.foldl _ []) = _
  rw [hkept]
  rfl

theorem exists_cleanSettings {settings : Value} (h : ∀ category, ∀ q ∈ listPlaces category,
    ∀ items mark, settings.at? q = some (.list items mark) →
      ∀ item ∈ items, ∃ safe, isSafeItem check category item = .ok safe) :
    ∃ left, cleanSettings check settings = .ok left := by
  refine Result.exists_foldlM (fun kept category _ => ?_) []
  refine Result.exists_foldlM (fun kept path hpath => ?_) kept
  rw [keepList]
  split
  next items mark hitems =>
    have hjudged := h category path (mem_listPlaces_of_mem_listPaths hpath) items mark hitems
    obtain ⟨safe, hsafe⟩ :=
      Result.exists_keeping (safeItems check category) rfl (fun _ _ => rfl) hjudged
    exact ⟨_, by rw [hsafe]; rfl⟩
  next => exact ⟨kept, rfl⟩

/-- What remains of a scope is written if there is an answer what remains. -/
theorem exists_keepScope {names : List String} {tree : Value} {scope : Scope}
    (hclean : IsCleaner names clean) (hne : scope.path ≠ [])
    (h : ∃ left, clean (tree.getD scope.path .emptyMap) = .ok left) (kept : Entries) :
    ∃ kept', keepScope clean tree kept scope = .ok kept' := by
  obtain ⟨left, hleft⟩ := h
  rw [keepScope_eq hclean hne, keepPart, scopePart, hleft]
  exact ⟨_, rfl⟩

/-- **What can be judged is cleaned.** -/
theorem exists_clean {raw : Value} (hraw : raw.IsTree)
    (h : Judged table check (pruned table raw)) :
    ∃ cleaned, Theme.clean table check raw = .ok cleaned := by
  have hfits := fits_sanitize table.names hraw
  have hstyle : ∀ kept, ∀ scope ∈ styleScopes table (pruned table raw), ∃ kept',
      keepScope (cleanStyles check) (pruned table raw) kept scope = .ok kept' := by
    intro kept scope hscope
    have hne := (stylePlace_of_mem_styleScopes hscope).ne_nil
    refine exists_keepScope (isCleaner_cleanStyles check) hne
      (exists_cleanStyles fun p hp v hv => ?_) kept
    rw [Value.at?_getD_emptyMap hne (properties_path_ne_nil p hp)] at hv
    exact h.styles scope hscope p hp v hv
  have hsetting : ∀ kept, ∀ scope ∈ settingScopes [] (pruned table raw), ∃ kept',
      keepScope (cleanSettings check) (pruned table raw) kept scope = .ok kept' := by
    intro kept scope hscope
    have hne := ((mem_scopePaths_iff hfits []).mp (List.mem_map_of_mem hscope)).1.ne_nil
    refine exists_keepScope (isCleaner_cleanSettings check) hne
      (exists_cleanSettings fun category q hq items mark hitems => ?_) kept
    rw [Value.at?_getD_emptyMap hne
      (Path.ne_nil_of_isOwn (isOwn_of_mem_listPlaces hq))] at hitems
    exact h.presets scope hscope category q hq items mark hitems
  obtain ⟨styles, hstyles⟩ := Result.exists_foldlM hstyle []
  obtain ⟨kept, hkept⟩ := Result.exists_foldlM hsetting styles
  rw [pruned] at hstyles hkept
  exact ⟨_, by rw [Theme.clean, hstyles]; dsimp only [bind, Except.bind]; rw [hkept]; rfl⟩

/-! ### What is kept -/

/-- **Of the values that are declared those that pass are kept, and nothing else is.** Whatever can
be judged is cleaned. In every scope of the styles of the pruned tree, a value that a property reads
and that is not missing stands where it stood exactly if no setting decides about the property and
the declaration of the value passes; and every leaf of the styles of the cleaned tree is such a
value. -/
theorem clean_keeps {raw : Value} (hraw : raw.IsTree) (table : BlockTable) (check : SafetyCheck) :
    (Judged table check (pruned table raw) →
      ∃ cleaned, Theme.clean table check raw = .ok cleaned) ∧
    ∀ cleaned, Theme.clean table check raw = .ok cleaned →
      (∀ scope ∈ styleScopes table (pruned table raw), ∀ p ∈ properties, ∀ v,
        (pruned table raw).at? (scope.path ++ p.path) = some v → isMissing v = false →
          (cleaned.at? (scope.path ++ p.path) = some v ↔ p.gate? = none ∧ p.Passes check v)) ∧
      ∀ q v, cleaned.at? ("styles" :: q) = some v → v.isLeaf = true →
        ∃ scope ∈ styleScopes table (pruned table raw), ∃ p ∈ properties,
          "styles" :: q = scope.path ++ p.path ∧
            (pruned table raw).at? (scope.path ++ p.path) = some v ∧ isMissing v = false ∧
              p.gate? = none ∧ p.Passes check v := by
  refine ⟨exists_clean hraw, fun cleaned hclean => ⟨fun scope hscope p hp v hv hmissing => ?_,
    fun q v hv hleaf => ?_⟩⟩
  · have hplace := stylePlace_of_mem_styleScopes hscope
    have hne := properties_path_ne_nil p hp
    obtain ⟨q, hq⟩ : ∃ q, scope.path ++ p.path = "styles" :: q :=
      List.head?_eq_some_iff.mp (hplace.head?_append p.path)
    have hmap : v.isMap = false := isMap_of_isMissing ((isMissing_writtenOut v).trans hmissing)
    rw [hq, at?_clean_iff hraw hclean (Value.isLeaf_of_isMap hmap), ← hq]
    constructor
    · rintro ⟨scope', hscope', p', hp', heq, hkept⟩
      obtain ⟨-, hpath⟩ := hplace.append_inj (stylePlace_of_mem_styleScopes hscope')
        (isOwnStyle_path p hp) (isOwnStyle_path p' hp') heq
      cases properties_path_inj p hp p' hp' hpath
      exact ⟨hkept.ungated, hkept.passes⟩
    · rintro ⟨hgate, hpasses⟩
      refine ⟨scope, hscope, p, hp, rfl, ?_, hgate, hmissing, hpasses⟩
      rw [Value.at?_getD_emptyMap hplace.ne_nil hne, hv]
  · obtain ⟨scope, hscope, p, hp, heq, hkept⟩ := (at?_clean_iff hraw hclean hleaf).mp hv
    have hplace := stylePlace_of_mem_styleScopes hscope
    have hfound := hkept.found
    rw [Value.at?_getD_emptyMap hplace.ne_nil (properties_path_ne_nil p hp)] at hfound
    exact ⟨scope, hscope, p, hp, heq, hfound, hkept.present, hkept.ungated, hkept.passes⟩

/-- Of two colors of a heading one would end its rule. What is left of the heading says which of
them passes. -/
theorem clean_keeps_heading :
    let heading := fun colors => Value.map [(.text "styles", .map [(.text "elements", .map [
      (.text "h1", .map [(.text "color", .map colors)])])])]
    let raw := heading [(.text "text", .text "red"), (.text "background", .text "\x7d")]
    let cleaned := heading [(.text "text", .text "red")]
    Theme.clean [] Css.isSafeDeclaration raw = .ok cleaned ∧
      Property.Passes Css.isSafeDeclaration ⟨"color", ["color", "text"]⟩ (.text "red") ∧
      ¬ Property.Passes Css.isSafeDeclaration ⟨"background-color", ["color", "background"]⟩
        (.text "\x7d") := by
  intro heading raw cleaned
  have hclean : Theme.clean [] Css.isSafeDeclaration raw = .ok cleaned := by decide +kernel
  obtain ⟨hkept, -⟩ := (clean_keeps (by decide : raw.IsTree) [] _).2 cleaned hclean
  have hscope : ⟨["styles", "elements", "h1"], some "h1", none⟩ ∈ styleScopes [] (pruned [] raw) :=
    by decide +kernel
  have htext := hkept _ hscope ⟨"color", ["color", "text"]⟩ (by decide) (.text "red")
    (by decide +kernel) rfl
  have hbackground := hkept _ hscope ⟨"background-color", ["color", "background"]⟩ (by decide)
    (.text "\x7d") (by decide +kernel) rfl
  refine ⟨hclean, (htext.mp (by decide)).2, fun hpasses => ?_⟩
  exact absurd (hbackground.mpr ⟨by decide, hpasses⟩) (by decide)

/-- The block gap of the root has a value that passes, and a setting asks for it; the cleaned tree
has neither styles nor settings. -/
theorem clean_drops_block_gap :
    let gap : Property := ⟨"--wp--style--block-gap", ["spacing", "blockGap"]⟩
    let raw := Value.map [
      (.text "styles", .map [(.text "spacing", .map [(.text "blockGap", .text "2em")])]),
      (.text "settings", .map [(.text "spacing", .map [(.text "blockGap", .bool true)])])]
    let root : Scope := ⟨["styles"], some rootSelector, none⟩
    raw.IsTree ∧ root ∈ styleScopes [] (pruned [] raw) ∧ gap ∈ properties ∧
      (pruned [] raw).at? (root.path ++ gap.path) = some (.text "2em") ∧
        isMissing (.text "2em") = false ∧ gap.Passes Css.isSafeDeclaration (.text "2em") ∧
          ∃ cleaned, Theme.clean [] Css.isSafeDeclaration raw = .ok cleaned ∧
            cleaned.at? (root.path ++ gap.path) = none := by
  refine ⟨by decide, by decide +kernel, by decide, by decide +kernel, rfl, ⟨"2em", ?_, ?_⟩,
    .map [], ?_, by decide⟩
  · decide +kernel
  · decide +kernel
  · decide +kernel

end Theme

end ThemeSheet
