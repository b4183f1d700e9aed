import ThemeSheet.Proofs.Preset.Values
import ThemeSheet.Proofs.Style.Declarations
import ThemeSheet.Proofs.Tree.Spelled
import ThemeSheet.Theme.Stylesheet

/-!
# What stops compiling

Compiling a theme to a stylesheet stops only where an integer of its tree cannot be spelled; the
filters stop moreover where a color among those of a duotone preset is refused. So the reasons for
which a theme is refused are found in its tree, one by one, whatever blocks are known and whatever
is asked for.

## Main definitions

* `Content.colored`: texts that are colors or not, but for allowed reasons.

## Main results

* `meets_valuesBySlug`: the values of presets are parts of the settings, or texts;
* `meets_styleDeclarations`: what is declared is of the class of texts that the tree has;
* `Theme.failsOnly_stylesheet`, `Theme.failsOnly_filters`.
-/

namespace ThemeSheet

open Result (FailsOnly Meets failsOnly_ok failsOnly_mapM meets_ok)

/-- Texts that are colors or not, but for allowed reasons. -/
def Content.colored (allowed : Refusal → Prop) : Content where
  key _ := True
  leaf
    | .text s => FailsOnly allowed (Css.parseColor s)
    | _ => True
  name _ _ := True.intro
  flag _ := True.intro
  version := True.intro

variable {allowed : Refusal → Prop} {texts : TextClass} {c : Content} {preset : Entries}
  {settings styles v : Value} {category : Category}

/-! ### Parts of a tree -/

theorem hasContent_getD {o : Option Value} {default : Value}
    (h : ∀ v, o = some v → v.HasContent c) (hdefault : default.HasContent c) :
    (o.getD default).HasContent c := by
  cases o with
  | none => exact hdefault
  | some v => exact h v rfl

theorem hasContent_items {o : Option Value} (h : ∀ v, o = some v → v.HasContent c) :
    ∀ item ∈ (o.bind Value.items?).getD [], item.HasContent c := by
  cases o with
  | none => exact List.forall_mem_nil _
  | some v =>
    cases v with
    | list items mark => exact (Value.hasContent_list.mp (h _ rfl)).2
    | _ => exact List.forall_mem_nil _

theorem hasContent_emptyMap : Value.emptyMap.HasContent c :=
  Value.hasContent_map.mpr ⟨rfl, Entries.haveContent_nil⟩

/-! ### Presets -/

theorem hasContent_of_mem_presetItems (h : settings.HasContent c) {origin : Origin} :
    ∀ item ∈ presetItems settings category origin, item.HasContent c :=
  hasContent_items fun _ => h.at?

theorem haveContent_of_mem_presetsOf (h : settings.HasContent c) {origins : List String}
    (hpreset : preset ∈ presetsOf settings category origins) : preset.HaveContent c := by
  obtain ⟨origin, -, hfound⟩ := List.mem_flatMap.mp hpreset
  obtain ⟨item, hitem, hsome⟩ := List.mem_filterMap.mp hfound
  obtain ⟨mark, rfl⟩ := exists_map_of_asPreset? hsome
  exact (Value.hasContent_map.mp (hasContent_of_mem_presetItems h _ hitem)).2

theorem spelledIn_duotoneId (h : preset.HaveContent (.spelled allowed texts)) :
    SpelledIn allowed texts (duotoneId preset) := by
  have hslug :
      ((Entries.named? "slug" preset).getD (.text "")).HasContent (.spelled allowed texts) :=
    hasContent_getD (fun _ => h.named?) TextClass.mem_nil
  refine hslug.spelling.bind fun slug hmem => meets_ok ?_
  have hname := TextClass.mem_separators_append (a := "wp-duotone-".toList) (by decide) hmem
  rwa [← String.toList_append] at hname

theorem spelledIn_duotoneReference (h : preset.HaveContent (.spelled allowed texts)) :
    SpelledIn allowed texts (duotoneReference preset) := by
  refine (spelledIn_duotoneId h).bind fun name hname => meets_ok ?_
  have hopened := TextClass.mem_separators_append (a := "url('#".toList) (by decide)
    (TextClass.mem_escapeMarkup hname)
  have hclosed := TextClass.mem_append_separators (a := "')".toList) (by decide) hopened
  rwa [← String.toList_append, ← String.toList_append] at hclosed

theorem meets_value (category : Category) (h : preset.HaveContent (.spelled allowed texts)) :
    Meets allowed (·.HasContent (.spelled allowed texts)) (category.value preset) := by
  unfold Category.value
  split
  · exact meets_ok (hasContent_getD (fun _ => h.named?) True.intro)
  · exact (spelledIn_duotoneReference h).bind fun _ hmem => meets_ok hmem

theorem failsOnly_ofValue_rawSlug (h : preset.HaveContent (.spelled allowed texts)) :
    FailsOnly allowed (Slug.ofValue (rawSlug preset)) :=
  Value.HasContent.ofValue (hasContent_getD (fun _ => h.named?) True.intro)

theorem meets_slugAndValue? (category : Category)
    (h : preset.HaveContent (.spelled allowed texts)) :
    Meets allowed (fun o => ∀ e, o = some e → e.2.HasContent (.spelled allowed texts))
      (slugAndValue? category preset) := by
  refine (meets_value category h).bind fun v hv => ?_
  split
  · exact meets_ok fun _ he => by cases he
  · refine (failsOnly_ofValue_rawSlug h).bind fun slug => meets_ok fun e he => ?_
    cases he
    exact hv

/-- **The values of presets** are parts of the settings, or texts. -/
theorem meets_valuesBySlug (h : settings.HasContent (.spelled allowed texts))
    (category : Category) (origins : List String) :
    Meets allowed (Value.LeavesHaveContent (.spelled allowed texts))
      (valuesBySlug settings category origins) := by
  have hpresets := Result.meets_mapM fun preset (hpreset : preset ∈ presetsOf _ category origins) =>
    meets_slugAndValue? category (haveContent_of_mem_presetsOf h hpreset)
  refine hpresets.bind fun found hfound => meets_ok fun leaf hleaf => ?_
  obtain ⟨o, ho, rfl⟩ := List.mem_filterMap.mp (Named.mem_of_mem_putAll hleaf)
  exact hfound _ ho leaf rfl

theorem failsOnly_presetDeclarations (h : settings.HasContent (.spelled allowed texts))
    (origins : List String) : FailsOnly allowed (presetDeclarations settings origins) := by
  refine (failsOnly_mapM fun category _ => ?_).bind fun _ => failsOnly_ok _
  refine (meets_valuesBySlug h category origins).bind fun values hvalues => ?_
  exact failsOnly_mapM fun entry hentry =>
    (hvalues entry hentry).cssText.bind fun _ _ => failsOnly_ok _

theorem failsOnly_customDeclarations (h : settings.HasContent (.spelled allowed texts)) :
    FailsOnly allowed (customDeclarations settings) := by
  have hcustom : (settings.getD ["custom"] .emptyMap).HasContent (.spelled allowed texts) :=
    hasContent_getD (fun _ => h.at?) hasContent_emptyMap
  refine (hcustom.flatten "" "--").bind fun leaves hleaves => ?_
  exact failsOnly_mapM fun leaf hleaf =>
    (hleaves leaf (List.mem_filter.mp hleaf).1).cssText.bind fun _ _ => failsOnly_ok _

theorem failsOnly_presetRules (h : settings.HasContent (.spelled allowed texts)) (selector : String)
    (origins : List String) : FailsOnly allowed (presetRules settings selector origins) := by
  refine (failsOnly_mapM fun category _ => ?_).bind fun _ => failsOnly_ok _
  have hslugs := failsOnly_mapM fun preset (hpreset : preset ∈ presetsOf _ category origins) =>
    failsOnly_ofValue_rawSlug (haveContent_of_mem_presetsOf h hpreset)
  exact FailsOnly.bind (hslugs.bind fun _ => failsOnly_ok _) fun _ => failsOnly_ok _

/-! ### Styles -/

theorem hasContent_writtenOut (h : v.HasContent (.spelled allowed texts)) :
    (writtenOut v).HasContent (.spelled allowed texts) := by
  cases v with
  | text s => exact TextClass.mem_expandReference h
  | _ => exact h

theorem Property.meets_declaration? (h : styles.HasContent (.spelled allowed texts))
    (p : Property) (settings : Value) :
    Meets allowed (fun o => ∀ d, o = some d → texts.mem d.value.toList)
      (p.declaration? styles settings) := by
  unfold Property.declaration?
  split
  · exact meets_ok fun _ hd => by cases hd
  next v hv =>
    obtain ⟨w, hw, rfl, -⟩ := Property.exists_of_declared? hv
    refine (hasContent_writtenOut (h.at? hw)).cssText.bind fun text htext =>
      meets_ok fun d hd => ?_
    cases hd
    exact htext

/-- **The values that are declared** are texts of the class. -/
theorem meets_styleDeclarations (h : styles.HasContent (.spelled allowed texts))
    (settings : Value) : Meets allowed (fun ds => ∀ d ∈ ds, texts.mem d.value.toList)
      (styleDeclarations styles settings) := by
  have hfound := Result.meets_mapM fun p (_ : p ∈ properties) => p.meets_declaration? h settings
  refine hfound.bind fun found hfound => meets_ok fun d hd => ?_
  obtain ⟨o, ho, rfl⟩ := List.mem_filterMap.mp hd
  exact hfound _ ho d rfl

/-! ### Themes -/

namespace Theme

variable {theme : Theme}

theorem hasContent_partOf (h : theme.tree.HasContent c) (scope : Scope) :
    (theme.partOf scope).HasContent c :=
  hasContent_getD (fun _ => h.at?) hasContent_emptyMap

theorem failsOnly_scopeVariables (h : theme.tree.HasContent (.spelled allowed texts))
    (origins : List String) (scope : Scope) :
    FailsOnly allowed (theme.scopeVariables origins scope) := by
  have hpart := hasContent_partOf h scope
  unfold scopeVariables
  split
  · exact failsOnly_ok []
  · refine FailsOnly.bind ?_ fun _ => failsOnly_ok _
    exact (failsOnly_presetDeclarations hpart origins).bind fun _ =>
      (failsOnly_customDeclarations hpart).bind fun _ => failsOnly_ok _

theorem failsOnly_scopeStyles (h : theme.tree.HasContent (.spelled allowed texts)) (scope : Scope) :
    FailsOnly allowed (theme.scopeStyles scope) := by
  unfold scopeStyles
  split
  · exact failsOnly_ok []
  · refine (meets_styleDeclarations (hasContent_partOf h scope) _).bind fun _ _ => ?_
    split
    · exact failsOnly_ok _
    · exact failsOnly_ok _

theorem failsOnly_scopeClasses (h : theme.tree.HasContent (.spelled allowed texts))
    (origins : List String) (scope : Scope) :
    FailsOnly allowed (theme.scopeClasses origins scope) := by
  unfold scopeClasses
  split
  · exact failsOnly_ok []
  · exact (failsOnly_presetRules (hasContent_partOf h scope) _ origins).bind
      fun _ => failsOnly_ok _

/-- **A stylesheet is refused only if the spelling of an integer of the tree is.** -/
theorem failsOnly_stylesheet (h : theme.tree.HasContent (.spelled allowed texts))
    (table : BlockTable) (sections : List StyleSection) (origins : List String) :
    FailsOnly allowed (theme.stylesheet table sections origins) := by
  refine (failsOnly_mapM fun part _ => ?_).bind fun _ => failsOnly_ok _
  have hgroups : ∀ (scopes : List Scope) (pieces : Scope → Except Refusal (List Piece)),
      (∀ scope, FailsOnly allowed (pieces scope)) → FailsOnly allowed (do
        let groups ← scopes.mapM pieces
        return groups.flatten) := fun scopes pieces hpieces =>
    (failsOnly_mapM fun scope _ => hpieces scope).bind fun _ => failsOnly_ok _
  cases part with
  | customProperties => exact hgroups _ _ (failsOnly_scopeVariables h origins)
  | styles => exact hgroups _ _ (failsOnly_scopeStyles h)
  | presets => exact hgroups _ _ (failsOnly_scopeClasses h origins)

/-! ### Filters -/

theorem failsOnly_colorChannels (h : v.HasContent (.colored allowed)) :
    FailsOnly allowed (colorChannels v) := by
  cases v with
  | text s => exact FailsOnly.bind h fun _ => failsOnly_ok _
  | _ => exact failsOnly_ok none

theorem failsOnly_duotoneFilter (hspelled : preset.HaveContent (.spelled allowed texts))
    (hcolored : preset.HaveContent (.colored allowed)) :
    FailsOnly allowed (duotoneFilter preset) := by
  have hcolors := hasContent_items (o := Entries.named? "colors" preset) fun _ => hcolored.named?
  have htables : FailsOnly allowed (duotoneTables preset) :=
    (failsOnly_mapM fun color hcolor => failsOnly_colorChannels (hcolors color hcolor)).bind
      fun _ => failsOnly_ok _
  exact htables.bind fun _ => (spelledIn_duotoneId hspelled).bind fun _ _ => failsOnly_ok _

/-- **Filters are refused only if the spelling of an integer or a color of the tree is.** -/
theorem failsOnly_filters (hspelled : theme.tree.HasContent (.spelled allowed texts))
    (hcolored : theme.tree.HasContent (.colored allowed)) (table : BlockTable)
    (origins : List String) : FailsOnly allowed (theme.filters table origins) := by
  refine (failsOnly_mapM fun preset hpreset => ?_).bind fun _ => failsOnly_ok _
  obtain ⟨scope, -, hpreset⟩ := List.mem_flatMap.mp hpreset
  obtain ⟨origin, -, hpreset⟩ := List.mem_flatMap.mp hpreset
  obtain ⟨item, hitem, hsome⟩ := List.mem_filterMap.mp hpreset
  have hcontent : ∀ {c : Content}, theme.tree.HasContent c → preset.HaveContent c := by
    intro c htree
    have hitem := hasContent_of_mem_presetItems (hasContent_partOf htree scope) item hitem
    cases item with
    | map es mark =>
      cases hsome
      exact (Value.hasContent_map.mp hitem).2
    | _ => cases hsome
  exact failsOnly_duotoneFilter (hcontent hspelled) (hcontent hcolored)

end Theme

end ThemeSheet
