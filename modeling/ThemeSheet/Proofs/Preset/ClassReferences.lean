import ThemeSheet.Proofs.Preset.Declarations
import ThemeSheet.Proofs.Slug.Characters
import ThemeSheet.Proofs.Tree.Decidable

/-!
# The custom properties of utility classes

A utility class sets a property to a custom property, and counts on that one being declared. Both
follow from the same presets, but not in the same way: every slug has its classes, while a custom
property is declared for those slugs of which some preset has a value. A slug is made of no
brackets, so what a class uses can be read back from its text.

So a class uses a custom property that is declared nowhere exactly if none of the presets of its
slug has a value, as in a palette with an entry that has a slug and no color.

## Main definitions

* `variablesIn`, `usedVariables`, the custom properties that texts and rules use;
* `IsValueless`, of a slug none of whose presets has a value.

## Main results

* `exists_of_mem_presetRules`: where the rule of a class comes from;
* `mem_usedVariables_iff`: what is used;
* `used_not_declared_iff`: what is used and not declared;
* `classes_declared_iff`: when classes use nothing but what is declared.
-/

namespace ThemeSheet

variable {settings : Value} {selector name slug : String} {origins : List String}
  {category : Category} {rules : List Rule} {ds : List Declaration}

/-! ### Custom properties in a text -/

/-- The names that a text has between `var(` and the next closing bracket, in its order. -/
def variablesIn : List Char → List String
  | [] => []
  | c :: rest =>
    match Text.afterStart? "var(".toList (c :: rest) with
    | some after => String.ofList (after.takeWhile (· ≠ ')')) :: variablesIn rest
    | none => variablesIn rest

/-- The names that the declarations of rules use. -/
def usedVariables (rules : List Rule) : List String :=
  rules.flatMap fun r => r.declarations.flatMap fun d => variablesIn d.value.toList

theorem variablesIn_cons_of_ne {c : Char} (h : c ≠ 'v') (rest : List Char) :
    variablesIn (c :: rest) = variablesIn rest := by
  have hstart : Text.afterStart? "var(".toList (c :: rest) = none := by
    refine Text.afterStart?_eq_none ?_
    rintro ⟨after, hafter⟩
    exact h (List.cons.inj hafter).1.symm
  rw [variablesIn, hstart]

/-- A text without an opening bracket uses nothing. -/
theorem variablesIn_eq_nil {cs : List Char} (h : '(' ∉ cs) : variablesIn cs = [] := by
  induction cs with
  | nil => rfl
  | cons c rest ih =>
    have hstart : Text.afterStart? "var(".toList (c :: rest) = none := by
      refine Text.afterStart?_eq_none fun hprefix => h ?_
      exact hprefix.subset (by decide)
    rw [variablesIn, hstart]
    exact ih fun hrest => h (List.mem_cons_of_mem c hrest)

/-- **A name without brackets is read back** from the reference to it. -/
theorem variablesIn_reference {name : List Char} (hopen : '(' ∉ name) (hclose : ')' ∉ name)
    {rest : List Char} (hrest : '(' ∉ rest) :
    variablesIn ("var(".toList ++ name ++ ')' :: rest) = [String.ofList name] := by
  have hafter : variablesIn ("ar(".toList ++ (name ++ ')' :: rest)) = [] := by
    show variablesIn ('a' :: 'r' :: '(' :: (name ++ ')' :: rest)) = []
    rw [variablesIn_cons_of_ne (by decide), variablesIn_cons_of_ne (by decide),
      variablesIn_cons_of_ne (by decide), variablesIn_eq_nil]
    simp [hopen, hrest]
  have hstart := Text.afterStart?_append "var(".toList (name ++ ')' :: rest)
  rw [List.append_assoc]
  show variablesIn ('v' :: ("ar(".toList ++ (name ++ ')' :: rest))) = _
  rw [variablesIn]
  have hcons : 'v' :: ("ar(".toList ++ (name ++ ')' :: rest)) =
    "var(".toList ++ (name ++ ')' :: rest) := rfl
  rw [hcons, hstart, hafter]
  dsimp only
  rw [Text.takeWhile_append_cons hclose]

/-! ### What classes use -/

/-- No custom property of a slug has a bracket in its name. -/
theorem not_mem_customProperty (category : Category) {v : Value} (h : Slug.ofValue v = .ok slug)
    {c : Char} (hc : c = '(' ∨ c = ')') : c ∉ (fillSlug category.customProperty slug).toList := by
  rw [Category.fillSlug_customProperty, String.toList_append, List.mem_append]
  rintro (hstem | hslug)
  · rcases hc with rfl | rfl <;> revert hstem <;> cases category <;> decide +kernel
  · have hslugChar := Slug.isSlugChar_of_mem_ofValue h c hslug
    rcases hc with rfl | rfl <;> revert hslugChar <;> decide +kernel

/-- A class uses the custom property of its slug, and nothing else. -/
theorem usedVariables_classRule (category : Category) (selector template property : String)
    {v : Value} (h : Slug.ofValue v = .ok slug) :
    usedVariables [classRule category selector template property slug] =
      [fillSlug category.customProperty slug] := by
  have himportant : '(' ∉ " !important".toList := by decide
  have hread := variablesIn_reference (not_mem_customProperty category h (.inl rfl))
    (not_mem_customProperty category h (.inr rfl)) himportant
  rw [String.ofList_toList] at hread
  have hvalue : ∀ s : String, ("var(" ++ s ++ ") !important").toList =
      "var(".toList ++ s.toList ++ ')' :: " !important".toList := fun s => by simp
  rw [usedVariables, classRule, List.flatMap_singleton, List.flatMap_singleton, hvalue, hread]

/-- The slugs of a category come from its presets. -/
theorem mem_slugsOf_iff {slugs : List String} (h : slugsOf settings category origins = .ok slugs) :
    slug ∈ slugs ↔
      ∃ preset ∈ presetsOf settings category origins, Slug.ofValue (rawSlug preset) = .ok slug := by
  obtain ⟨found, hfound, h⟩ := Result.exists_of_bind h
  cases h
  rw [Named.mem_distinct, Result.mem_mapM_iff hfound]

/-- **The rules of classes** are made for the slugs of presets, class by class. -/
theorem exists_of_mem_presetRules (h : presetRules settings selector origins = .ok rules)
    {rule : Rule} (hrule : rule ∈ rules) : ∃ category : Category, ∃ entry ∈ category.classes,
      ∃ preset ∈ presetsOf settings category origins, ∃ slug,
        Slug.ofValue (rawSlug preset) = .ok slug ∧
          rule = classRule category (if selector = rootSelector then "" else selector) entry.1
            entry.2 slug := by
  obtain ⟨groups, hgroups, h⟩ := Result.exists_of_bind h
  cases h
  obtain ⟨group, hgroup, hrule⟩ := List.mem_flatten.mp hrule
  obtain ⟨category, -, hcategory⟩ := Result.exists_of_mem_mapM hgroups hgroup
  obtain ⟨slugs, hslugs, hcategory⟩ := Result.exists_of_bind hcategory
  cases hcategory
  obtain ⟨entry, hentry, hrule⟩ := List.mem_flatMap.mp hrule
  obtain ⟨slug, hslug, heq⟩ := List.mem_map.mp hrule
  obtain ⟨preset, hpreset, hslug⟩ := (mem_slugsOf_iff hslugs).mp hslug
  exact ⟨category, entry, hentry, preset, hpreset, slug, hslug, heq.symm⟩

/-- **What the classes of a scope use**: the custom property of every slug of a category with
classes. -/
theorem mem_usedVariables_iff (h : presetRules settings selector origins = .ok rules) :
    name ∈ usedVariables rules ↔ ∃ category : Category, category.classes ≠ [] ∧
      ∃ preset ∈ presetsOf settings category origins, ∃ slug,
        Slug.ofValue (rawSlug preset) = .ok slug ∧
          name = fillSlug category.customProperty slug := by
  have hused : ∀ rs : List Rule, name ∈ usedVariables rs ↔ ∃ r ∈ rs, name ∈ usedVariables [r] := by
    intro rs
    simp only [usedVariables, List.mem_flatMap, List.mem_singleton, exists_eq_left]
  rw [hused]
  constructor
  · rintro ⟨r, hr, hname⟩
    obtain ⟨category, entry, hentry, preset, hpreset, slug, hslug, rfl⟩ :=
      exists_of_mem_presetRules h hr
    rw [usedVariables_classRule category _ _ _ hslug, List.mem_singleton] at hname
    exact ⟨category, List.ne_nil_of_mem hentry, preset, hpreset, slug, hslug, hname⟩
  · rintro ⟨category, hclasses, preset, hpreset, slug, hslug, hname⟩
    obtain ⟨entry, hentry⟩ := List.exists_mem_of_ne_nil _ hclasses
    obtain ⟨groups, hgroups, h⟩ := Result.exists_of_bind h
    cases h
    obtain ⟨group, hgroup, hcategory⟩ := Result.exists_of_mapM hgroups category.mem_all
    obtain ⟨slugs, hslugs, hcategory⟩ := Result.exists_of_bind hcategory
    cases hcategory
    have hmem : slug ∈ slugs := (mem_slugsOf_iff hslugs).mpr ⟨preset, hpreset, hslug⟩
    refine ⟨_, List.mem_flatten.mpr ⟨_, hgroup, List.mem_flatMap.mpr ⟨entry, hentry,
      List.mem_map_of_mem hmem⟩⟩, ?_⟩
    rw [usedVariables_classRule category _ _ _ hslug, hname]
    exact List.mem_singleton_self _

/-! ### What is used and not declared -/

/-- **A slug without a value**: there are presets of it, and none of them has one. -/
structure IsValueless (settings : Value) (category : Category) (origins : List String)
    (slug : String) : Prop where
  found : ∃ preset ∈ presetsOf settings category origins, Slug.ofValue (rawSlug preset) = .ok slug
  valueless : ∀ preset ∈ presetsOf settings category origins,
    Slug.ofValue (rawSlug preset) = .ok slug → ¬category.HasValue preset

/-- **The custom properties that classes use and nothing declares** are those of the slugs of which
no preset has a value. -/
theorem used_not_declared_iff (hrules : presetRules settings selector origins = .ok rules)
    (hds : presetDeclarations settings origins = .ok ds) :
    name ∈ usedVariables rules ∧ name ∉ ds.map (·.name) ↔
      ∃ category slug, category.classes ≠ [] ∧ name = fillSlug category.customProperty slug ∧
        IsValueless settings category origins slug := by
  rw [mem_usedVariables_iff hrules, mem_declared_iff hds]
  constructor
  · rintro ⟨⟨category, hclasses, preset, hpreset, slug, hslug, hname⟩, hnot⟩
    refine ⟨category, slug, hclasses, hname, ⟨preset, hpreset, hslug⟩, ?_⟩
    intro other hother hslug' hvalue
    exact hnot ⟨category, other, hother, slug, hslug', hvalue, hname⟩
  · rintro ⟨category, slug, hclasses, hname, ⟨preset, hpreset, hslug⟩, hvalueless⟩
    refine ⟨⟨category, hclasses, preset, hpreset, slug, hslug, hname⟩, ?_⟩
    rintro ⟨category', other, hother, slug', hslug', hvalue, hname'⟩
    obtain ⟨rfl, rfl⟩ := Category.customProperty_inj (hname.symm.trans hname')
    exact hvalueless other hother hslug' hvalue

/-- **When classes use nothing but what is declared.** Wherever the classes and the declarations of
settings can be made, every custom property that a class uses is declared if and only if every slug
of a category with classes has a preset with a value. -/
theorem classes_declared_iff (hrules : presetRules settings selector origins = .ok rules)
    (hds : presetDeclarations settings origins = .ok ds) :
    (∀ name ∈ usedVariables rules, name ∈ ds.map (·.name)) ↔
      ∀ category : Category, category.classes ≠ [] → ∀ slug,
        ¬IsValueless settings category origins slug := by
  constructor
  · intro hall category hclasses slug hslug
    obtain ⟨hused, hnot⟩ :=
      (used_not_declared_iff hrules hds).mpr ⟨category, slug, hclasses, rfl, hslug⟩
    exact hnot (hall _ hused)
  · intro hnone name hused
    refine Decidable.byContradiction fun hnot => ?_
    obtain ⟨category, slug, hclasses, -, hslug⟩ :=
      (used_not_declared_iff hrules hds).mp ⟨hused, hnot⟩
    exact hnone category hclasses slug hslug

/-- The theme has a red without a color, and a gradient. The red of the defaults has a color, and
the classes use three times the custom property that is declared for it. -/
theorem classes_declared_of_default_color :
    let gradient := Value.map [(.text "slug", .text "Dusk1"), (.text "gradient", .text "none")]
    let settings := Value.map [(.text "color", .map [
      (.text "palette", .map [
        (.text "theme", .list [.map [(.text "slug", .text "red")], .map []]),
        (.text "default", .list [
          .map [(.text "slug", .text "Red"), (.text "color", .text "#e00")]])]),
      (.text "gradients", .map [(.text "custom", .list [gradient])])])]
    ∃ rules ds, presetRules settings "p" Origin.allNames = .ok rules ∧
      presetDeclarations settings Origin.allNames = .ok ds ∧
      usedVariables rules = List.replicate 3 "--wp--preset--color--red" ++
        ["--wp--preset--gradient--dusk-1"] ∧
      ∀ category : Category, category.classes ≠ [] → ∀ slug,
        ¬IsValueless settings category Origin.allNames slug := by
  intro gradient settings
  have hclasses : (presetRules settings "p" Origin.allNames).map usedVariables =
      .ok (List.replicate 3 "--wp--preset--color--red" ++ ["--wp--preset--gradient--dusk-1"]) := by
    decide +kernel
  have hvariables : (presetDeclarations settings Origin.allNames).map (·.map (·.name)) =
      .ok ["--wp--preset--color--red", "--wp--preset--gradient--dusk-1"] := by
    decide +kernel
  obtain ⟨rules, hrules, hused⟩ := Result.exists_of_map hclasses
  obtain ⟨ds, hds, hnames⟩ := Result.exists_of_map hvariables
  refine ⟨rules, ds, hrules, hds, hused, (classes_declared_iff hrules hds).mp ?_⟩
  rw [hused, hnames]
  decide

/-- **A class may use what nothing declares**: a palette has a red without a color, and nothing
else. -/
theorem exists_class_not_declared :
    let settings := Value.map [(.text "color", .map [
      (.text "palette", .map [(.text "theme", .list [.map [(.text "slug", .text "red")]])])])]
    ∃ rules, presetRules settings rootSelector Origin.allNames = .ok rules ∧
      presetDeclarations settings Origin.allNames = .ok [] ∧
        "--wp--preset--color--red" ∈ usedVariables rules := by
  intro settings
  have hclasses : (presetRules settings rootSelector Origin.allNames).map usedVariables =
      .ok (List.replicate 3 "--wp--preset--color--red") := by
    decide +kernel
  obtain ⟨rules, hrules, hused⟩ := Result.exists_of_map hclasses
  exact ⟨rules, hrules, rfl, by rw [hused]; decide⟩

end ThemeSheet
