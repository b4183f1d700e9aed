import ThemeSheet.Proofs.Preset.ClassReferences
import ThemeSheet.Proofs.Preset.DeclaredOnce
import ThemeSheet.Proofs.Slug.Coverage

/-!
# The alphabet of slugs and names

A slug is words with single hyphens between them, and its words are written with small letters and
digits. Contractions are words too: `it’s` keeps its apostrophe, so slugs are not made of letters,
digits and hyphens alone. The decimal digits of other scripts are digits as well; a slug has none
but those of its text.

The names that slugs are written into add nothing but small letters and hyphens, and the dot before
the name of a class. So a digit of another script in a name stands in the slug of a preset, or in a
key of the custom setting.

## Main definitions

* `Slug.IsPlain`, of slugs without apostrophes;
* `Slug.IsWordOf`, of the words of slugs;
* `Slug.IsNameChar`, of the characters of names that are made of some texts;
* `IsSlugText`, `IsKeyText`, of the texts that the names of settings are made of.

## Main results

* `Slug.not_isPlain_contraction`: a slug with an apostrophe;
* `Slug.exists_words_ofString`: the words of slugs;
* `Slug.mem_of_mem_ofChars`: the digits of slugs;
* `alphabet_of_names`: slugs, custom properties and classes.
-/

namespace ThemeSheet

variable {settings : Value} {selector : String} {origins : List String} {ds : List Declaration}
  {rules : List Rule} {c : Char}

/-! ### Slugs -/

namespace Slug

open Text (isDecimalDigit isAsciiDigit)

variable {cs word : List Char}

/-- Whether a character is a small letter of Latin-1 or one of the ten digits. -/
def inAlphabet (c : Char) : Bool := isSmall c || isAsciiDigit c

/-- Words of small letters and digits with single hyphens between them, or nothing. -/
def IsPlain (slug : String) : Prop :=
  ∃ words, slug.toList = Text.joinWith ['-'] words ∧
    ∀ word ∈ words, word ≠ [] ∧ ∀ c ∈ word, inAlphabet c = true

theorem IsPlain.inAlphabet_or {slug : String} (h : IsPlain slug) (hc : c ∈ slug.toList) :
    inAlphabet c = true ∨ c = '-' := by
  obtain ⟨words, hslug, hwords⟩ := h
  rw [hslug] at hc
  rcases Text.mem_joinWith hc with hsep | ⟨word, hword, hc⟩
  · exact .inr (List.mem_singleton.mp hsep)
  · exact .inl ((hwords word hword).2 c hc)

/-- **A contraction keeps its apostrophe.** -/
theorem not_isPlain_contraction : ¬IsPlain (ofString "it’s") := by
  intro h
  have hslug : ofString "it’s" = "it’s" := by decide +kernel
  rw [hslug] at h
  have hc := h.inAlphabet_or (c := apostrophe) (by decide)
  revert hc
  decide

/-- A word of a slug: small letters and digits, with a contraction behind them perhaps. Of decimal
digits of other scripts no more is said than that they are those of the text. -/
def IsWordOf (text word : List Char) : Prop :=
  ∃ stem tail, word = stem ++ tail ∧ stem ≠ [] ∧ IsContraction tail ∧
    ∀ c ∈ stem, inAlphabet c = true ∨ c ∈ text ∧ isDecimalDigit c = true

/-- **The digits of a slug are those of the text.** -/
theorem mem_of_mem_ofChars (hc : c ∈ ofChars cs) (hdigit : isDecimalDigit c = true) : c ∈ cs := by
  have hkept : isKept c = true := by simp [isKept, hdigit]
  have hother : c ∈ (ofChars cs).filter fun c => c ≠ '-' ∧ c ≠ apostrophe := by
    refine List.mem_filter.mpr ⟨hc, ?_⟩
    rw [← isKept_of_isSlugChar (isSlugChar_of_mem_ofChars hc), hkept]
  rw [filter_ofChars] at hother
  obtain ⟨d, hd, rfl⟩ := List.mem_map.mp hother
  have hcapital : ¬isCapital d = true := by
    intro hcapital
    have hsmall : isSmall (toSmall d) = true := isSmall_toSmall (by simp [isLetter, hcapital])
    rw [isSmall_eq_false_of_isDecimalDigit hdigit] at hsmall
    cases hsmall
  rw [toSmall, if_neg hcapital]
  exact (List.mem_filter.mp hd).1

theorem mem_of_mem_slugWords (hword : word ∈ slugWords cs) (hc : c ∈ word)
    (hdigit : isDecimalDigit c = true) : c ∈ cs := by
  have hkept : isKept c = true := by simp [isKept, hdigit]
  have hslug : c ∈ (ofChars cs).filter isKept := by
    rw [ofChars_eq, Text.filter_joinWith (by decide)]
    exact List.mem_filter.mpr ⟨List.mem_flatten.mpr ⟨word, hword, hc⟩, hkept⟩
  exact mem_of_mem_ofChars (List.mem_filter.mp hslug).1 hdigit

theorem isWordOf_of_mem_slugWords (hword : word ∈ slugWords cs) : IsWordOf cs word := by
  obtain ⟨stem, tail, heq, hne, htail, hstem⟩ :=
    (isSlugWord_of_mem_slugWords word hword).exists_stem
  refine ⟨stem, tail, heq, hne, htail, fun c hc => ?_⟩
  rcases hstem c hc with hsmall | hdigit
  · exact .inl (by simp [inAlphabet, hsmall])
  · have hmem : c ∈ word := heq ▸ List.mem_append_left tail hc
    exact .inr ⟨mem_of_mem_slugWords hword hmem hdigit, hdigit⟩

/-- **The words of a slug**, with single hyphens between them. -/
theorem exists_words_ofString (s : String) :
    ∃ words, (ofString s).toList = Text.joinWith ['-'] words ∧
      ∀ word ∈ words, IsWordOf s.toList word :=
  ⟨slugWords s.toList, by rw [ofString, String.toList_ofList, ofChars_eq],
    fun _ => isWordOf_of_mem_slugWords⟩

/-! ### Characters of names -/

/-- A character of a name that is made of some texts: it is one of slugs, and if it is a digit of
another script, one of the texts has it. -/
structure IsNameChar (named : String → Prop) (c : Char) : Prop where
  isSlugChar : isSlugChar c = true
  digit : isDecimalDigit c = true → isAsciiDigit c = true ∨ ∃ text, named text ∧ c ∈ text.toList

variable {named : String → Prop} {slug s : String}

/-- What all names have in common is written with small letters and hyphens. -/
theorem isNameChar_of_fixed (h : isSmall c = true ∨ c = '-') : IsNameChar named c := by
  rcases h with hsmall | rfl
  · refine ⟨by simp [isSlugChar, hsmall], fun hdigit => ?_⟩
    rw [isSmall_eq_false_of_isDecimalDigit hdigit] at hsmall
    cases hsmall
  · have hhyphen : isDecimalDigit '-' = false := by decide
    refine ⟨by decide, fun hdigit => ?_⟩
    rw [hhyphen] at hdigit
    cases hdigit

theorem isNameChar_of_mem_fixed (h : s.toList.all (fun c => isSmall c || c == '-') = true) :
    ∀ c ∈ s.toList, IsNameChar named c := fun c hc =>
  isNameChar_of_fixed (by simpa using List.all_eq_true.mp h c hc)

theorem isNameChar_of_mem_ofString (hs : named s) (hc : c ∈ (ofString s).toList) :
    IsNameChar named c := by
  refine ⟨isSlugChar_of_mem_ofString hc, fun hdigit => .inr ⟨s, hs, ?_⟩⟩
  rw [ofString, String.toList_ofList] at hc
  exact mem_of_mem_ofChars hc hdigit

/-- The slug of a value is made of its spelling. -/
theorem isNameChar_of_mem_ofValue {v : Value} (h : ofValue v = .ok slug)
    (hnamed : ∀ text, v.spelling = .ok text → named text) :
    ∀ c ∈ slug.toList, IsNameChar named c := by
  obtain ⟨text, htext, h⟩ := Result.exists_of_bind h
  cases h
  exact fun c => isNameChar_of_mem_ofString (hnamed text htext)

theorem isNameChar_of_mem_ofKey {k : Key} (h : ofKey k = .ok slug)
    (hnamed : ∀ text, k.spelling = .ok text → named text) :
    ∀ c ∈ slug.toList, IsNameChar named c := by
  obtain ⟨text, htext, h⟩ := Result.exists_of_bind h
  cases h
  exact fun c => isNameChar_of_mem_ofString (hnamed text htext)

/-- Slugs with hyphens between them. -/
theorem isNameChar_of_mem_intercalate {slugs : List String}
    (h : ∀ slug ∈ slugs, ∀ c ∈ slug.toList, IsNameChar named c) :
    ∀ c ∈ ("--".intercalate slugs).toList, IsNameChar named c := by
  intro c hc
  rw [Text.toList_intercalate] at hc
  rcases Text.mem_joinWith hc with hsep | ⟨part, hpart, hc⟩
  · exact isNameChar_of_mem_fixed (by decide) c hsep
  · obtain ⟨slug, hslug, rfl⟩ := List.mem_map.mp hpart
    exact h slug hslug c hc

end Slug

/-- The text of the slug of a preset. -/
def IsSlugText (settings : Value) (origins : List String) (text : String) : Prop :=
  ∃ category, ∃ preset ∈ presetsOf settings category origins, (rawSlug preset).spelling = .ok text

/-- The text of a key on the way to a leaf of the `custom` setting. -/
def IsKeyText (settings : Value) (text : String) : Prop :=
  ∃ leaf ∈ (settings.getD ["custom"] .emptyMap).leaves, ∃ k ∈ leaf.1, k.spelling = .ok text

/-! ### Custom properties -/

/-- The names of the leaves of a flattened tree are slugs of keys with hyphens between them. -/
theorem isNameChar_of_mem_flatten {tree : Value} {flat : List (String × Value)}
    (h : flatten "" "--" tree = .ok flat) {leaf : String × Value} (hleaf : leaf ∈ flat)
    {named : String → Prop}
    (hnamed : ∀ way ∈ tree.leaves, ∀ k ∈ way.1, ∀ text, k.spelling = .ok text → named text) :
    ∀ c ∈ leaf.1.toList, Slug.IsNameChar named c := by
  cases tree with
  | map es mark =>
    obtain ⟨-, leaves, hleaves, houtcome⟩ := (flatten_map_eq_ok_iff "" "--" es mark flat).mp h
    have hname := (houtcome.order.mem_iff leaf.1).mp (List.mem_map_of_mem hleaf)
    obtain ⟨e, he, heq⟩ := List.mem_map.mp hname
    obtain ⟨way, hmem, hway⟩ := Result.exists_of_mem_mapM hleaves he
    obtain ⟨slugs, hslugs, hway⟩ := Result.exists_of_bind hway
    cases hway
    rw [← heq, String.empty_append]
    refine Slug.isNameChar_of_mem_intercalate fun slug hslug => ?_
    obtain ⟨k, hk, hkslug⟩ := Result.exists_of_mem_mapM hslugs hslug
    exact Slug.isNameChar_of_mem_ofKey hkslug (hnamed way hmem k hk)
  | _ =>
    cases h
    cases hleaf

/-- The custom property of a slug is made of the characters of slugs. -/
theorem isNameChar_of_mem_customProperty {category : Category} {preset : Entries}
    (hpreset : preset ∈ presetsOf settings category origins) {slug : String}
    (hslug : Slug.ofValue (rawSlug preset) = .ok slug) {named : String → Prop}
    (hnamed : ∀ text, IsSlugText settings origins text → named text) :
    ∀ c ∈ (fillSlug category.customProperty slug).toList, Slug.IsNameChar named c := by
  have hstem : category.stem.toList.all (fun c => Slug.isSmall c || c == '-') = true := by
    cases category <;> decide +kernel
  rw [Category.fillSlug_customProperty, String.toList_append]
  exact List.forall_mem_append.mpr ⟨Slug.isNameChar_of_mem_fixed hstem,
    Slug.isNameChar_of_mem_ofValue hslug fun text htext =>
      hnamed text ⟨category, preset, hpreset, htext⟩⟩

/-- **The custom properties that settings declare** are made of their slugs and keys. -/
theorem isNameChar_of_mem_names (h : Theme.variableDeclarations settings origins = .ok ds) :
    ∀ name ∈ ds.map (·.name), ∀ c ∈ name.toList,
      Slug.IsNameChar (fun text => IsSlugText settings origins text ∨ IsKeyText settings text)
        c := by
  intro name hname
  cases (mem_names_variableDeclarations_iff h).mp hname with
  | preset hpreset hslug _ =>
    exact isNameChar_of_mem_customProperty hpreset hslug fun _ => .inl
  | custom hflat hleaf _ =>
    rw [String.toList_append]
    exact List.forall_mem_append.mpr ⟨Slug.isNameChar_of_mem_fixed (by decide +kernel),
      isNameChar_of_mem_flatten hflat hleaf fun way hway k hk text htext =>
        .inr ⟨way, hway, k, hk, htext⟩⟩

/-! ### Classes -/

/-- **The classes of a scope** are made of their slugs behind their dots. -/
theorem exists_class_of_mem_presetRules (h : presetRules settings selector origins = .ok rules)
    {rule : Rule} (hrule : rule ∈ rules) : ∃ name,
      rule.selector =
          Selector.append (if selector = rootSelector then "" else selector) ("." ++ name) ∧
        ∀ c ∈ name.toList, Slug.IsNameChar (IsSlugText settings origins) c := by
  obtain ⟨category, entry, hentry, preset, hpreset, slug, hslug, rfl⟩ :=
    exists_of_mem_presetRules h hrule
  obtain ⟨ending, hfill, hending⟩ := Category.fillSlug_class hentry
  refine ⟨"has-" ++ slug ++ ending, ?_, ?_⟩
  · show Selector.append _ (fillSlug entry.1 slug) = _
    rw [hfill, ← String.append_assoc, ← String.append_assoc]
    rfl
  have hchars := Slug.isNameChar_of_mem_ofValue hslug fun text htext =>
    (⟨category, preset, hpreset, htext⟩ : IsSlugText settings origins text)
  rw [String.toList_append, String.toList_append]
  exact List.forall_mem_append.mpr
    ⟨List.forall_mem_append.mpr ⟨Slug.isNameChar_of_mem_fixed (by decide +kernel), hchars⟩,
      fun c hc => Slug.isNameChar_of_fixed (hending c hc)⟩

/-- **The alphabet of slugs and names.** Every slug is words with single hyphens between them, each
of small letters and digits, with a contraction behind them perhaps; the custom properties that
settings declare, those that their classes use and the names of the classes are made of the same
characters. Digits of other scripts than the ten are those of the texts that slugs are made of. -/
theorem alphabet_of_names :
    (∀ s : String, ∃ words, (Slug.ofString s).toList = Text.joinWith ['-'] words ∧
        ∀ word ∈ words, Slug.IsWordOf s.toList word) ∧
      (∀ settings origins ds, Theme.variableDeclarations settings origins = .ok ds →
        ∀ name ∈ ds.map (·.name), ∀ c ∈ name.toList,
          Slug.IsNameChar (fun text => IsSlugText settings origins text ∨ IsKeyText settings text)
            c) ∧
      ∀ settings selector origins rules, presetRules settings selector origins = .ok rules →
        (∀ name ∈ usedVariables rules, ∀ c ∈ name.toList,
            Slug.IsNameChar (IsSlugText settings origins) c) ∧
          ∀ rule ∈ rules, ∃ name,
            rule.selector =
                Selector.append (if selector = rootSelector then "" else selector) ("." ++ name) ∧
              ∀ c ∈ name.toList, Slug.IsNameChar (IsSlugText settings origins) c := by
  refine ⟨Slug.exists_words_ofString, fun _ _ _ h => isNameChar_of_mem_names h,
    fun _ _ _ _ h => ⟨fun name hname => ?_, fun _ => exists_class_of_mem_presetRules h⟩⟩
  obtain ⟨category, -, preset, hpreset, slug, hslug, rfl⟩ := (mem_usedVariables_iff h).mp hname
  exact isNameChar_of_mem_customProperty hpreset hslug fun _ => id

/-- A color and two leaves: the slug of the color has a contraction and an ordinal, and a key is a
digit of another script. -/
theorem alphabet_of_names_contraction :
    let settings := Value.map [
      (.text "color", .map [(.text "palette", .map [(.text "theme", .list [
        .map [(.text "slug", .text "It’s the 2ND"), (.text "color", .text "#f00")]])])]),
      (.text "custom", .map [(.text "lignesÉpaisses", .map [
        (.int 10, .text "1px"), (.text "٣", .text "2px")])])]
    let named := fun text =>
      IsSlugText settings Origin.allNames text ∨ IsKeyText settings text
    ∃ rules ds, presetRules settings "p" Origin.allNames = .ok rules ∧
      Theme.variableDeclarations settings Origin.allNames = .ok ds ∧
      rules.map (·.selector) = ["p.has-it’s-the-2nd-color", "p.has-it’s-the-2nd-background-color",
        "p.has-it’s-the-2nd-border-color"] ∧
      ds.map (·.name) = ["--wp--preset--color--it’s-the-2nd",
        "--wp--custom--lignes-épaisses--10", "--wp--custom--lignes-épaisses--٣"] ∧
      (∀ name ∈ ds.map (·.name), ∀ c ∈ name.toList, Slug.IsNameChar named c) ∧
      (∀ name ∈ usedVariables rules, ∀ c ∈ name.toList,
        Slug.IsNameChar (IsSlugText settings Origin.allNames) c) ∧
      (∀ rule ∈ rules, ∃ name, rule.selector = Selector.append "p" ("." ++ name) ∧
        ∀ c ∈ name.toList, Slug.IsNameChar (IsSlugText settings Origin.allNames) c) ∧
      ∃ words, (Slug.ofString "It’s the 2ND").toList = Text.joinWith ['-'] words ∧
        ∀ word ∈ words, Slug.IsWordOf "It’s the 2ND".toList word := by
  intro settings named
  obtain ⟨hslugs, hnames, hclasses⟩ := alphabet_of_names
  have hselectors : (presetRules settings "p" Origin.allNames).map (·.map (·.selector)) =
      .ok ["p.has-it’s-the-2nd-color", "p.has-it’s-the-2nd-background-color",
        "p.has-it’s-the-2nd-border-color"] := by decide +kernel
  have hvariables : (Theme.variableDeclarations settings Origin.allNames).map (·.map (·.name)) =
      .ok ["--wp--preset--color--it’s-the-2nd", "--wp--custom--lignes-épaisses--10",
        "--wp--custom--lignes-épaisses--٣"] := by decide +kernel
  obtain ⟨rules, hrules, hselectors⟩ := Result.exists_of_map hselectors
  obtain ⟨ds, hds, hvariables⟩ := Result.exists_of_map hvariables
  obtain ⟨hused, hrule⟩ := hclasses settings "p" Origin.allNames rules hrules
  exact ⟨rules, ds, hrules, hds, hselectors, hvariables, hnames settings Origin.allNames ds hds,
    hused, hrule, hslugs "It’s the 2ND"⟩

end ThemeSheet
