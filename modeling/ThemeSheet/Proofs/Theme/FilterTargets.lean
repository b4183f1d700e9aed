import ThemeSheet.Proofs.Preset.Declarations
import ThemeSheet.Proofs.Preset.Safety
import ThemeSheet.Proofs.Text.Markup
import ThemeSheet.Proofs.Theme.Runs
import ThemeSheet.Proofs.Tree.Decidable
import ThemeSheet.Theme.Stylesheet

/-!
# Filters and the references to them

A duotone preset makes two things that have to fit together: a custom property, whose value refers
to a filter by its name, and a document with the filter of that name. They are made apart. The
custom properties go by slugs, where a later preset takes the place of an earlier one, and leave out
presets without a slug; the documents go preset by preset. But the value of a slug is that of one of
its presets, every preset with a slug has a document, and the name is written in the same way in
both. So whatever a custom property refers to is there.

## Main definitions

* `filterId?`, the name of the filter of a document;
* `Theme.filterDocuments`, the documents one by one.

## Main results

* `filterId?_of_duotoneFilter`: the document of a preset has the filter that is named for it;
* `Theme.filter_of_duotone_declaration`: references to filters have their targets.
-/

namespace ThemeSheet

variable {preset : Entries} {settings : Value} {origins : List String} {document text : String}

/-! ### Names in markup -/

/-- What stands before the name of the filter in a document. -/
def filterMark : List Char := "<filter id=\"".toList

/-- The name of the filter of a document: what stands in the quotes of its `id`. -/
def filterId? (document : String) : Option String :=
  (Text.after? filterMark document.toList).map fun rest =>
    String.ofList (rest.takeWhile (· ≠ '"'))

/-- A document begins with the mark of its filter, and has none before. -/
theorem exists_filterHead_eq : ∃ front, filterHead.toList = front ++ filterMark ∧
    Text.occursIn filterMark (front ++ filterMark.dropLast) = false := by
  -- The four parts are taken apart as characters first, because looking into the text is slow.
  obtain ⟨a, b, c, hhead, hfirst⟩ : ∃ a b c : List Char,
      filterHead = String.ofList a ++ String.ofList b ++ String.ofList c ++
        String.ofList ("<defs>".toList ++ filterMark) ∧
      Text.occursIn filterMark (a ++ b ++ c ++ "<defs>".toList ++ filterMark.dropLast) = false :=
    ⟨_, _, _, rfl, by decide +kernel⟩
  refine ⟨a ++ b ++ c ++ "<defs>".toList, ?_, hfirst⟩
  rw [hhead]
  simp only [String.toList_append, String.toList_ofList, List.append_assoc]

/-- A quote stands behind the name. -/
theorem exists_filterMiddle_eq : ∃ rest, filterMiddle.toList = '"' :: rest := by
  obtain ⟨a, b, c, hmiddle⟩ : ∃ (a : List Char) (b c : String),
      filterMiddle = String.ofList ('"' :: a) ++ b ++ c := ⟨_, _, _, rfl⟩
  rw [hmiddle]
  simp only [String.toList_append, String.toList_ofList, List.cons_append]
  exact ⟨_, rfl⟩

/-- **The document of a preset** has the filter that is named for it. -/
theorem filterId?_of_duotoneFilter (h : duotoneFilter preset = .ok document) :
    ∃ name, duotoneId preset = .ok name ∧ filterId? document = some (Text.escapeMarkup name) := by
  obtain ⟨tables, -, h⟩ := Result.exists_of_bind h
  obtain ⟨name, hname, h⟩ := Result.exists_of_bind h
  cases h
  refine ⟨name, hname, ?_⟩
  obtain ⟨front, hfront, hfirst⟩ := exists_filterHead_eq
  obtain ⟨middle, hmiddle⟩ := exists_filterMiddle_eq
  simp only [filterId?, String.toList_append, hfront, List.append_assoc]
  rw [hmiddle, List.cons_append, ← List.append_assoc,
    Text.after?_append (by decide +kernel) hfirst, Option.map_some,
    Text.takeWhile_append_cons (Text.not_mem_escapeMarkup (.inl rfl) name), String.ofList_toList]

/-! ### Names in references -/

/-- A preset of a slug is one of the presets that have a filter. -/
theorem mem_duotonePresets {item : Value} (hitem : item ∈ itemsOf settings .duotone origins)
    (h : asPreset? item = some preset) : preset ∈ Theme.duotonePresets settings origins := by
  obtain ⟨origin, horigin, hitem⟩ := List.mem_flatMap.mp hitem
  obtain ⟨mark, rfl⟩ := exists_map_of_asPreset? h
  exact List.mem_flatMap.mpr ⟨origin, horigin, List.mem_filterMap.mpr ⟨_, hitem, rfl⟩⟩

/-- **The value of a slug** refers to the filter of one of the presets. -/
theorem exists_of_mem_duotone_values {values : List (String × Value)}
    (h : valuesBySlug settings .duotone origins = .ok values) {e : String × Value}
    (he : e ∈ values) : ∃ preset ∈ Theme.duotonePresets settings origins, ∃ name,
      duotoneId preset = .ok name ∧ e.2 = .text ("url('#" ++ Text.escapeMarkup name ++ "')") := by
  rw [valuesBySlug_eq] at h
  obtain ⟨vs, hvs, rfl⟩ := Result.exists_of_map h
  obtain ⟨item, hitem, preset, hpreset, -, hvalue⟩ :=
    exists_of_mem_valuesOf hvs (Named.mem_of_mem_putAll he)
  obtain ⟨reference, hreference, hvalue⟩ := Result.exists_of_bind hvalue
  obtain ⟨name, hname, hreference⟩ := Result.exists_of_bind hreference
  cases hreference
  exact ⟨preset, mem_duotonePresets hitem hpreset, name, hname, (Except.ok.inj hvalue).symm⟩

/-- A duotone preset whose filter has a name has a slug and a value. -/
theorem exists_slugAndValue?_duotone {item : Value} {name : String}
    (h : asPreset? item = some preset) (hname : duotoneId preset = .ok name) :
    ∃ slug, slugAndValue? .duotone preset =
      .ok (some (slug, .text ("url('#" ++ Text.escapeMarkup name ++ "')"))) := by
  have hvalue : Category.duotone.value preset =
      .ok (.text ("url('#" ++ Text.escapeMarkup name ++ "')")) := by
    rw [Category.value]
    show (duotoneReference preset >>= _) = _
    rw [duotoneReference, hname]
    rfl
  obtain ⟨s, hs, -⟩ := Result.exists_of_bind hname
  have hraw : (Entries.named? "slug" preset).getD (.text "") = rawSlug preset := by
    obtain ⟨mark, rfl⟩ := exists_map_of_asPreset? h
    have hslug := entryNamed?_of_asPreset? h
    rw [Value.entryNamed?] at hslug
    rw [hslug]
    rfl
  rw [hraw] at hs
  refine ⟨Slug.ofString s, ?_⟩
  rw [slugAndValue?, hvalue]
  show (Slug.ofValue (rawSlug preset) >>= _) = _
  rw [Slug.ofValue, hs]
  rfl

/-- If the filters of all presets have names, the custom properties can be declared. -/
theorem exists_duotone_declarations
    (h : ∀ preset ∈ Theme.duotonePresets settings origins, ∃ name, duotoneId preset = .ok name) :
    ∃ ds, categoryDeclarations settings origins .duotone = .ok ds := by
  have hfound : ∃ vs, valuesOf .duotone (itemsOf settings .duotone origins) = .ok vs := by
    have hone : ∀ preset ∈ (itemsOf settings .duotone origins).filterMap asPreset?,
        ∃ o, slugAndValue? .duotone preset = .ok o := by
      intro preset hpreset
      obtain ⟨item, hitem, hsome⟩ := List.mem_filterMap.mp hpreset
      obtain ⟨name, hname⟩ := h preset (mem_duotonePresets hitem hsome)
      obtain ⟨slug, hboth⟩ := exists_slugAndValue?_duotone hsome hname
      exact ⟨_, hboth⟩
    obtain ⟨found, hfound⟩ := Result.exists_mapM hone
    exact ⟨found.filterMap id, by rw [valuesOf, hfound]; rfl⟩
  obtain ⟨vs, hvs⟩ := hfound
  have hvalues : valuesBySlug settings .duotone origins = .ok (Named.putAll [] vs) := by
    rw [valuesBySlug_eq, hvs]
    rfl
  rw [categoryDeclarations, hvalues]
  refine Result.exists_mapM fun e he => ?_
  obtain ⟨preset, -, name, -, htext⟩ := exists_of_mem_duotone_values hvalues he
  rw [htext]
  exact ⟨_, rfl⟩

namespace Theme

variable {theme : Theme} {table : BlockTable}

/-! ### Filters of a theme -/

/-- The documents of the filters of all duotone presets, one by one. -/
def filterDocuments (theme : Theme) (table : BlockTable) (origins : List String) :
    Except Refusal (List String) :=
  ((settingScopes table theme.tree).flatMap fun scope =>
    duotonePresets (theme.partOf scope) origins).mapM duotoneFilter

/-- The text of the filters is that of the documents. -/
theorem filters_eq (theme : Theme) (table : BlockTable) (origins : List String) :
    theme.filters table origins = (theme.filterDocuments table origins).map String.join := by
  rw [filters, filterDocuments]
  cases ((settingScopes table theme.tree).flatMap fun scope =>
    duotonePresets (theme.partOf scope) origins).mapM duotoneFilter <;> rfl

/-- **References to filters have their targets.** Whenever the filters of a theme can be written,
the duotone presets of every scope can be declared; and whatever a scope declares by a name of
duotone custom properties is a reference to a filter, by a name without quotes that one of the
written documents has, character for character, as the name of its filter. -/
theorem filter_of_duotone_declaration (h : theme.filters table origins = .ok text) :
    ∃ documents, theme.filterDocuments table origins = .ok documents ∧
      text = String.join documents ∧
      ∀ scope ∈ settingScopes table theme.tree,
        (∃ ds, categoryDeclarations (theme.partOf scope) origins .duotone = .ok ds) ∧
        ∀ ds, presetDeclarations (theme.partOf scope) origins = .ok ds → ∀ d ∈ ds,
          "--wp--preset--duotone--".toList <+: d.name.toList →
            ∃ name, d.value = "url('#" ++ name ++ "')" ∧ '\x27' ∉ name.toList ∧
              ∃ document ∈ documents, filterId? document = some name := by
  rw [filters_eq] at h
  obtain ⟨documents, hdocuments, rfl⟩ := Result.exists_of_map h
  refine ⟨documents, hdocuments, rfl, fun scope hscope => ?_⟩
  have htarget : ∀ preset ∈ duotonePresets (theme.partOf scope) origins, ∃ name,
      duotoneId preset = .ok name ∧
        ∃ document ∈ documents, filterId? document = some (Text.escapeMarkup name) := by
    intro preset hpreset
    obtain ⟨document, hdocument, hfilter⟩ :=
      Result.exists_of_mapM hdocuments (List.mem_flatMap.mpr ⟨scope, hscope, hpreset⟩)
    obtain ⟨name, hname, hid⟩ := filterId?_of_duotoneFilter hfilter
    exact ⟨name, hname, document, hdocument, hid⟩
  refine ⟨exists_duotone_declarations fun preset hpreset =>
    (htarget preset hpreset).imp fun _ => And.left, fun ds hds d hd hprefix => ?_⟩
  obtain ⟨category, values, hvalues, e, he, hname, hvalue⟩ :=
    exists_of_mem_presetDeclarations hds hd
  have hstem : Category.duotone.stem = "--wp--preset--duotone--" := by decide +kernel
  rw [hname, ← hstem] at hprefix
  obtain rfl := Category.eq_of_stem_prefix hprefix
  obtain ⟨preset, hpreset, name, hid, htext⟩ := exists_of_mem_duotone_values hvalues he
  obtain ⟨name', hid', hdocument⟩ := htarget preset hpreset
  cases hid.symm.trans hid'
  rw [htext] at hvalue
  exact ⟨Text.escapeMarkup name, (Except.ok.inj hvalue).symm,
    Text.not_mem_escapeMarkup (.inr rfl) name, hdocument⟩

/-- The defaults and the theme write one slug in two ways, and one more preset of the theme has no
slug. There are three filters, and the custom property refers to one of them. -/
theorem filter_of_duotone_declaration_shared_slug :
    let duotone := fun presets => Value.map [(.text "settings", .map [
      (.text "color", .map [(.text "duotone", .list presets)])])]
    let preset := fun slug => Value.map [(.text "slug", .text slug)]
    let base := construct [] "default" (duotone [preset "blue-red"])
    let incoming := construct [] "theme" (duotone [preset "Blue & 'Red'", .map []])
    let theme := base.merge incoming
    ∃ documents, theme.filterDocuments [] Origin.allNames = .ok documents ∧ documents.length = 3 ∧
      ∃ document ∈ documents, ∃ name, filterId? document = some name ∧
        presetDeclarations (theme.tree.getD ["settings"] .emptyMap) Origin.allNames =
          .ok [⟨"--wp--preset--duotone--blue-red", "url('#" ++ name ++ "')"⟩] := by
  intro duotone preset base incoming theme
  have hcount : (theme.filterDocuments [] Origin.allNames).map List.length = .ok 3 := by
    decide +kernel
  obtain ⟨documents, hdocuments, hlength⟩ := Result.exists_of_map hcount
  have hfilters : theme.filters [] Origin.allNames = .ok (String.join documents) := by
    rw [filters_eq, hdocuments]
    rfl
  have hds : presetDeclarations (theme.tree.getD ["settings"] .emptyMap) Origin.allNames =
      .ok [⟨"--wp--preset--duotone--blue-red",
        "url('#wp-duotone-Blue &amp; &#x27;Red&#x27;')"⟩] := by
    decide +kernel
  have hroot : ⟨["settings"], some rootSelector, none⟩ ∈ settingScopes [] theme.tree := by
    decide +kernel
  obtain ⟨documents', hdocuments', -, htargets⟩ := filter_of_duotone_declaration hfilters
  cases hdocuments.symm.trans hdocuments'
  obtain ⟨name, hvalue, -, document, hdocument, hid⟩ :=
    (htargets _ hroot).2 _ hds _ (List.mem_singleton_self _) (by decide +kernel)
  dsimp only at hvalue
  rw [hvalue] at hds
  exact ⟨documents, hdocuments, hlength, document, hdocument, name, hid, hds⟩

end Theme

end ThemeSheet
