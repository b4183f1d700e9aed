import ThemeSheet.Proofs.Theme.CleanSections
import ThemeSheet.Proofs.Tree.Decidable

/-!
# Cleaning what has been cleaned

What cleaning writes fits the schema and is of the current version, so a second cleaning drops
nothing before it looks at the scopes. And what remains of a section is what remains of it again. So
a cleaned tree is left as it is when the same check cleans it again, down to the order of its keys.

## Main results

* `Theme.withSections_withSections`, `Theme.fits_withSections`: sections that have been replaced;
* `Theme.clean_again`: what has been cleaned is clean.
-/

namespace ThemeSheet

open Entries (under)

namespace Theme

variable {check : SafetyCheck} {table : BlockTable} {es : Entries}

/-! ### Sections that have been replaced -/

section Replaced

variable {kept styles settings : Entries} {name : String}

/-- A section that is what remains of it is not changed. -/
theorem replaceSection_eq_self
    (h : Entries.named? name es = (Entries.named? name kept).filter Value.truthy) :
    replaceSection kept es name = es := by
  have habsent : Entries.named? name es = none → Entries.erase (.text name) es = es :=
    Entries.erase_of_get?_eq_none
  rw [replaceSection]
  cases hv : Entries.named? name kept with
  | none =>
    rw [hv] at h
    exact habsent h
  | some v =>
    rw [hv, Option.filter_some] at h
    dsimp only
    split
    next htruthy =>
      rw [if_pos htruthy] at h
      exact Entries.insert_of_get? h
    next hfalse =>
      rw [if_neg hfalse] at h
      exact habsent h

theorem fits_replaceSection {fields : List (String × Schema)} (h : Schema.Fits fields es)
    (hkept : ∀ v, Entries.named? name kept = some v →
      ∃ s, Schema.field? fields name = some s ∧ s.Accepts v) :
    Schema.Fits fields (replaceSection kept es name) := by
  rw [replaceSection]
  split
  next v hv =>
    split
    · obtain ⟨s, hs, hsv⟩ := hkept v hv
      exact h.insert hs hsv
    · exact h.erase _
  next => exact h.erase _

/-- Sections that have been replaced by something are replaced by the same again. -/
theorem withSections_withSections (hd : es.Distinct) (styles settings : Entries) :
    withSections styles settings (withSections styles settings es) =
      withSections styles settings es := by
  have hsame : ∀ name ∈ ["styles", "settings"],
      replaceSection (sections styles settings) (withSections styles settings es) name =
        withSections styles settings es := by
    intro name hname
    refine replaceSection_eq_self ?_
    rw [named?_withSections hd]
    rcases List.mem_cons.mp hname with rfl | hname
    · rw [named?_sections_styles, filter_truthy, if_pos rfl]
    · rw [List.mem_singleton.mp hname, named?_sections_settings, filter_truthy,
        if_neg (by decide), if_pos rfl]
  show replaceSection (sections styles settings) (replaceSection (sections styles settings)
    (withSections styles settings es) "styles") "settings" = _
  rw [hsame "styles" (by decide), hsame "settings" (by decide)]

/-- What remains of the sections fits where they did. -/
theorem fits_withSections {blocks elements : List String}
    (h : Schema.Fits (Schema.wholeTheme blocks elements) es)
    (hstyles : Schema.Fits (Schema.stylesSection blocks elements) styles)
    (hsettings : Schema.Fits (Schema.settingsSection blocks) settings) :
    Schema.Fits (Schema.wholeTheme blocks elements) (withSections styles settings es) := by
  have haccepts : ∀ (sub : List (String × Schema)) (inner : Entries) (v : Value),
      Schema.Fits sub inner → (if inner = [] then none else some (Value.map inner)) = some v →
        (Schema.fields sub).Accepts v := by
    intro sub inner v hinner hv
    split at hv
    · cases hv
    next hne =>
      cases hv
      exact Schema.accepts_fields.mpr ⟨inner, rfl, hne, hinner⟩
  refine fits_replaceSection (fits_replaceSection h fun v hv => ⟨_, rfl, ?_⟩)
    fun v hv => ⟨_, rfl, ?_⟩
  · exact haccepts _ styles v hstyles ((named?_sections_styles styles settings).symm.trans hv)
  · exact haccepts _ settings v hsettings
      ((named?_sections_settings styles settings).symm.trans hv)

end Replaced

/-- A tree that fits and is current is cleaned as it is. -/
theorem clean_of_fits (hes : es.AreTrees)
    (hfits : Schema.Fits (Schema.wholeTheme table.names elementNames) es)
    (hcurrent : Migration.applies (.map es) = false) (check : SafetyCheck) :
    Theme.clean table check (.map es) = do
      let styles ← stylesContent check (.map (under "styles" es))
      let settings ← settingsContent check (.map (under "settings" es))
      return .map (withSections styles settings es) := by
  have hsanitize : sanitize table.names elementNames (Migration.run (.map es)) = es := by
    rw [Migration.run_of_not_applies hcurrent, sanitize, Schema.prune_map,
      Schema.pruneEntries_of_fits _ _ hfits]
  rw [clean_eq (Value.isTree_map.mpr ⟨rfl, hes⟩), hsanitize]

/-- **What has been cleaned is clean**: cleaning it again by the same check leaves it as it is, and
refuses nothing. -/
theorem clean_again {raw : Value} (hraw : raw.IsTree) (table : BlockTable)
    (check : SafetyCheck) :
    (do
      let cleaned ← Theme.clean table check raw
      Theme.clean table check cleaned) = Theme.clean table check raw := by
  cases hclean : Theme.clean table check raw with
  | error e => rfl
  | ok cleaned =>
    show Theme.clean table check cleaned = .ok cleaned
    obtain ⟨fs, hcleaned, htrees⟩ := exists_of_clean hraw hclean
    rw [clean_eq hraw] at hclean
    obtain ⟨styles, hstyles, hclean⟩ := Result.exists_of_bind hclean
    obtain ⟨settings, hsettings, hclean⟩ := Result.exists_of_bind hclean
    cases hclean
    cases hcleaned
    have hfits := fits_sanitize table.names hraw
    have hcurrent : Migration.applies (.map (withSections styles settings
        (sanitize table.names elementNames (Migration.run raw)))) = false := by
      rw [← applies_sanitize table.names hraw]
      refine Migration.applies_congr ?_
      rw [Value.entryNamed?, Value.entryNamed?, named?_withSections hfits.distinct,
        if_neg (by decide), if_neg (by decide)]
    have hstylesFits := (isCleaner_stylesContent check).fits _ _ _ hstyles (hfits.under rfl)
    have hsettingsFits := (isCleaner_settingsContent check).fits _ _ _ hsettings (hfits.under rfl)
    rw [clean_of_fits htrees.trees (fits_withSections hfits hstylesFits hsettingsFits) hcurrent,
      under_styles_withSections hfits.distinct, under_settings_withSections hfits.distinct,
      (isCleaner_stylesContent check).stable _ styles (.map styles) hstyles fun _ _ => rfl,
      (isCleaner_settingsContent check).stable _ settings (.map settings) hsettings
        fun _ _ => rfl]
    show Except.ok (Value.map (withSections styles settings (withSections styles settings _))) = _
    rw [withSections_withSections hfits.distinct]

/-- A tree of the first version styles a quote and the links in it, a block that is not known and a
heading, and it has two colors. Its quote is left with the links alone, and the unknown block, the
heading and one of the colors are gone; the second cleaning leaves all of that in its order. -/
theorem clean_again_quote :
    let table := BlockTable.ofBlocks elements [⟨"core/quote", []⟩]
    let colored := fun color => Value.map [(.text "color", .map [(.text "text", .text color)])]
    let preset := fun slug color => Value.map [(.text "slug", .text slug),
      (.text "name", .text slug), (.text "color", .text color)]
    let raw := Value.map [
      (.text "styles", .map [
        (.text "blocks", .map [
          (.text "core/gone", colored "red"),
          (.text "core/quote", .map [
            (.text "elements", .map [(.text "link", colored "var:preset|color|ink")]),
            (.text "color", .map [(.text "text", .text "\x7d")])])]),
        (.text "elements", .map [(.text "h1", colored "\x7d")]),
        (.text "spacing", .map [(.text "margin", .map [(.text "top", .int 0)])])]),
      (.text "version", .int 1),
      (.text "settings", .map [(.text "color", .map [
        (.text "palette", .list [preset "ink" "#111", preset "end" "\x7d"])])])]
    let cleaned := Value.map [
      (.text "styles", .map [
        (.text "spacing", .map [(.text "margin", .map [(.text "top", .int 0)])]),
        (.text "blocks", .map [(.text "core/quote", .map [
          (.text "elements", .map [(.text "link", colored "var:preset|color|ink")])])])]),
      (.text "version", .int 2),
      (.text "settings", .map [(.text "color", .map [
        (.text "palette", .list [preset "ink" "#111"])])])]
    Theme.clean table Css.isSafeDeclaration raw = .ok cleaned ∧
      (do
        let once ← Theme.clean table Css.isSafeDeclaration raw
        Theme.clean table Css.isSafeDeclaration once) = .ok cleaned := by
  intro table colored preset raw cleaned
  have hclean : Theme.clean table Css.isSafeDeclaration raw = .ok cleaned := by decide +kernel
  exact ⟨hclean, (clean_again (by decide : raw.IsTree) table Css.isSafeDeclaration).trans hclean⟩

end Theme

end ThemeSheet
