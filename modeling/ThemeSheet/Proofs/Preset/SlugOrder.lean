import ThemeSheet.Proofs.Preset.Declarations
import ThemeSheet.Proofs.Tree.Decidable
import ThemeSheet.Proofs.Tree.Paths

/-!
# The order of slugs and the precedence of values

Whoever asks for a category at some origins gets the presets of the defaults, of the theme and of
the user in this order, as far as they have been asked for. Both outcomes follow from that one list:
the slugs are those of all presets, and the values by slug are those of the presets that have one.
In both of them a slug stands where it occurs first, but its value is the last one.

So it does not matter in which order, or how often, the origins are named; a value of the user wins
over one of the theme, and that over a default one; and if all presets have values, the two outcomes
have the same slugs.

## Main definitions

* `presetsAt`, `askedAt`, the presets at an origin, and those that have been asked for;
* `GivesValues`, of the slugs and values that presets give.

## Main results

* `presetsOf_eq`: which presets take part;
* `slugsOf_eq_ok_iff`, `valuesBySlug_eq_ok_iff`: what the outcomes are, and when there are any;
* `slugs_and_values`: their order and their precedence.
-/

namespace ThemeSheet

open Named (IsFirstOccurrences IsOutcome)

variable {settings : Value} {category : Category} {origins : List String} {preset : Entries}
  {presets others : List Entries} {found values : List (String × Value)}

/-! ### The presets that take part -/

/-- The presets that a category has at an origin: the mappings with a slug other than null, of the
list that stands there. -/
def presetsAt (settings : Value) (category : Category) (origin : Origin) : List Entries :=
  match settings.walk? (category.path ++ [origin.name]) with
  | some (.list items _) =>
    (items.filterMap Value.entries?).filter fun es =>
      (Entries.named? "slug" es).any fun slug => !slug.isNull
  | _ => []

/-- The presets at an origin, if it is among those that are asked for. -/
def askedAt (settings : Value) (category : Category) (origins : List String) (origin : Origin) :
    List Entries :=
  if origin.name ∈ origins then presetsAt settings category origin else []

theorem asPreset?_eq (v : Value) : asPreset? v = v.entries?.filter fun es =>
    (Entries.named? "slug" es).any fun slug => !slug.isNull := by
  cases v with
  | map es mark =>
    rw [asPreset?, Value.entries?, Option.filter_some]
    cases Entries.named? "slug" es with
    | none => rfl
    | some slug => cases slug <;> rfl
  | _ => rfl

theorem filterMap_presetItems (settings : Value) (category : Category) (origin : Origin) :
    (presetItems settings category origin).filterMap asPreset? =
      presetsAt settings category origin := by
  have hne : category.path ++ [origin.name] ≠ [] := by simp
  have hfun : asPreset? = fun v => v.entries?.filter fun es =>
      (Entries.named? "slug" es).any fun slug => !slug.isNull := funext asPreset?_eq
  rw [presetItems, presetsAt, Value.at?_of_ne_nil hne]
  cases settings.walk? (category.path ++ [origin.name]) with
  | none => rfl
  | some v =>
    cases v with
    | list items mark => exact hfun ▸ (List.filter_filterMap ..).symm
    | _ => rfl

/-- **The presets that take part**, in the order of precedence. -/
theorem presetsOf_eq (settings : Value) (category : Category) (origins : List String) :
    presetsOf settings category origins =
      askedAt settings category origins .default ++ (askedAt settings category origins .theme ++
        askedAt settings category origins .custom) := by
  have hasked : ∀ origins' : List Origin,
      (origins'.filter fun origin => origins.contains origin.name).flatMap
        (fun origin => (presetItems settings category origin).filterMap asPreset?) =
      origins'.flatMap (askedAt settings category origins) := by
    intro origins'
    induction origins' with
    | nil => rfl
    | cons origin rest ih =>
      rw [List.filter_cons, List.flatMap_cons, askedAt]
      split
      next h =>
        rw [List.flatMap_cons, filterMap_presetItems, ih, if_pos (List.contains_iff_mem.mp h)]
      next h => rw [ih, if_neg (mt List.contains_iff_mem.mpr h), List.nil_append]
  rw [presetsOf, Origin.ordered, hasked, Origin.all]
  simp

/-! ### Slugs -/

/-- **The slugs of the presets**, each where it occurs first. There are slugs if every preset has
one that can be spelt. -/
theorem slugsOf_eq_ok_iff {slugs : List String} :
    slugsOf settings category origins = .ok slugs ↔
      ∃ names, (presetsOf settings category origins).mapM
          (fun preset => Slug.ofValue (rawSlug preset)) = .ok names ∧
        IsFirstOccurrences names slugs := by
  simp only [Named.isFirstOccurrences_iff]
  constructor
  · intro h
    obtain ⟨names, hnames, h⟩ := Result.exists_of_bind h
    exact ⟨names, hnames, (Except.ok.inj h).symm⟩
  · rintro ⟨names, hnames, rfl⟩
    rw [slugsOf, hnames]
    rfl

/-! ### Values -/

/-- What presets give, in their order: a preset gives its slug with its value, but nothing if the
value is null. -/
inductive GivesValues (category : Category) : List Entries → List (String × Value) → Prop
  | nil : GivesValues category [] []
  | skip {preset : Entries} {presets : List Entries} {found : List (String × Value)}
      (hvalue : category.value preset = .ok .null) (h : GivesValues category presets found) :
      GivesValues category (preset :: presets) found
  | give {preset : Entries} {presets : List Entries} {found : List (String × Value)} {v : Value}
      {slug : String} (hvalue : category.value preset = .ok v) (hnull : v.isNull = false)
      (hslug : Slug.ofValue (rawSlug preset) = .ok slug) (h : GivesValues category presets found) :
      GivesValues category (preset :: presets) ((slug, v) :: found)

/-- The slugs and values that are collected are those that the presets give. -/
theorem filterMap_mapM_eq_ok_iff :
    (presets.mapM (slugAndValue? category)).map (·.filterMap id) = .ok found ↔
      GivesValues category presets found := by
  constructor
  · intro h
    obtain ⟨os, hos, rfl⟩ := Result.exists_of_map h
    clear h
    induction presets generalizing os with
    | nil =>
      cases hos
      exact .nil
    | cons preset presets ih =>
      rw [List.mapM_cons] at hos
      obtain ⟨o, ho, hos⟩ := Result.exists_of_bind hos
      obtain ⟨rest, hrest, hos⟩ := Result.exists_of_bind hos
      cases hos
      have hgives := ih rest hrest
      obtain ⟨v, hv, ho⟩ := Result.exists_of_bind ho
      split at ho
      next hnull =>
        cases ho
        cases v <;> cases hnull
        exact .skip hv hgives
      next hnull =>
        obtain ⟨slug, hslug, ho⟩ := Result.exists_of_bind ho
        cases ho
        exact .give hv (Bool.eq_false_iff.mpr hnull) hslug hgives
  · intro h
    induction h with
    | nil => rfl
    | skip hvalue _ ih =>
      obtain ⟨os, hos, rfl⟩ := Result.exists_of_map ih
      rw [List.mapM_cons, slugAndValue?_of_null hvalue, hos]
      rfl
    | give hvalue hnull hslug _ ih =>
      obtain ⟨os, hos, rfl⟩ := Result.exists_of_map ih
      rw [List.mapM_cons, slugAndValue?_of_value hvalue hnull, hslug, hos]
      rfl

theorem valuesBySlug_eq_map (settings : Value) (category : Category) (origins : List String) :
    valuesBySlug settings category origins =
      ((presetsOf settings category origins).mapM (slugAndValue? category)).map
        fun os => Named.putAll [] (os.filterMap id) := by
  rw [valuesBySlug]
  cases (presetsOf settings category origins).mapM (slugAndValue? category) <;> rfl

/-- **The values of the presets by slug.** There are values if every preset gives one or has
none. -/
theorem valuesBySlug_eq_ok_iff :
    valuesBySlug settings category origins = .ok values ↔
      ∃ found, GivesValues category (presetsOf settings category origins) found ∧
        IsOutcome found values := by
  simp only [Named.isOutcome_iff, ← filterMap_mapM_eq_ok_iff, valuesBySlug_eq_map]
  constructor
  · intro h
    obtain ⟨os, hos, rfl⟩ := Result.exists_of_map h
    exact ⟨os.filterMap id, by rw [hos]; rfl, rfl⟩
  · rintro ⟨found, hfound, rfl⟩
    obtain ⟨os, hos, rfl⟩ := Result.exists_of_map hfound
    rw [hos]
    rfl

/-- What two lists of presets give, one after the other. -/
theorem GivesValues.exists_of_append (h : GivesValues category (presets ++ others) found) :
    ∃ vs ws, found = vs ++ ws ∧ GivesValues category presets vs ∧
      GivesValues category others ws := by
  induction presets generalizing found with
  | nil => exact ⟨[], found, rfl, .nil, h⟩
  | cons preset presets ih =>
    cases h with
    | skip hvalue h =>
      obtain ⟨vs, ws, rfl, hvs, hws⟩ := ih h
      exact ⟨vs, ws, rfl, .skip hvalue hvs, hws⟩
    | give hvalue hnull hslug h =>
      obtain ⟨vs, ws, rfl, hvs, hws⟩ := ih h
      exact ⟨_, ws, rfl, .give hvalue hnull hslug hvs, hws⟩

/-- **The last origin that has a value for a slug gives it.** -/
theorem exists_lookup_valuesBySlug (h : valuesBySlug settings category origins = .ok values) :
    ∃ defaults themes customs,
      GivesValues category (askedAt settings category origins .default) defaults ∧
      GivesValues category (askedAt settings category origins .theme) themes ∧
      GivesValues category (askedAt settings category origins .custom) customs ∧
      ∀ slug, values.lookup slug = (lastValue? slug customs).or
        ((lastValue? slug themes).or (lastValue? slug defaults)) := by
  obtain ⟨found, hfound, hvalues⟩ := valuesBySlug_eq_ok_iff.mp h
  rw [presetsOf_eq] at hfound
  obtain ⟨defaults, rest, rfl, hdefaults, hrest⟩ := hfound.exists_of_append
  obtain ⟨themes, customs, rfl, hthemes, hcustoms⟩ := hrest.exists_of_append
  refine ⟨defaults, themes, customs, hdefaults, hthemes, hcustoms, fun slug => ?_⟩
  have hlast : values.lookup slug = lastValue? slug (defaults ++ (themes ++ customs)) :=
    hvalues.value slug
  rw [hlast, lastValue?_append, lastValue?_append, Option.or_assoc]

/-! ### Slugs and values -/

/-- Where all presets have values, the slugs of what they give are all their slugs. -/
theorem map_names_filterMap_mapM (h : ∀ preset ∈ presets, category.HasValue preset) :
    (presets.mapM (slugAndValue? category)).map (fun os => (os.filterMap id).map (·.1)) =
      presets.mapM fun preset => Slug.ofValue (rawSlug preset) := by
  induction presets with
  | nil => rfl
  | cons preset presets ih =>
    obtain ⟨⟨v, hv, hnull⟩, hrest⟩ := List.forall_mem_cons.mp h
    rw [List.mapM_cons, List.mapM_cons, slugAndValue?_of_value hv hnull, ← ih hrest]
    cases Slug.ofValue (rawSlug preset) with
    | error e => rfl
    | ok slug => cases presets.mapM (slugAndValue? category) <;> rfl

/-- If all presets have values, the values by slug have the slugs of all of them. -/
theorem slugsOf_eq_map_names
    (h : ∀ preset ∈ presetsOf settings category origins, category.HasValue preset) :
    slugsOf settings category origins =
      (valuesBySlug settings category origins).map (·.map (·.1)) := by
  rw [slugsOf, ← map_names_filterMap_mapM h, valuesBySlug_eq_map]
  cases (presetsOf settings category origins).mapM (slugAndValue? category) with
  | error e => rfl
  | ok os => exact congrArg Except.ok (Named.names_putAll _).symm

/-- Which origins are asked for is all that matters. -/
theorem Origin.ordered_congr {names names' : List String}
    (h : ∀ name, name ∈ names ↔ name ∈ names') : Origin.ordered names = Origin.ordered names' := by
  refine List.filter_congr fun origin _ => ?_
  rw [Bool.eq_iff_iff, List.contains_iff_mem, List.contains_iff_mem]
  exact h _

/-- **Order and precedence.** The slugs are those of the presets that take part, and the values by
slug are what these give: slugs in the order of their first occurrence, values by the last. Neither
depends on how the origins are listed, the last origin with a value for a slug gives it, and if all
presets have values, the slugs are the same. -/
theorem slugs_and_values (settings : Value) (category : Category) (origins : List String) :
    let presets := askedAt settings category origins .default ++
      (askedAt settings category origins .theme ++ askedAt settings category origins .custom)
    (∀ slugs, slugsOf settings category origins = .ok slugs ↔
        ∃ names, presets.mapM (fun preset => Slug.ofValue (rawSlug preset)) = .ok names ∧
          IsFirstOccurrences names slugs) ∧
      (∀ values, valuesBySlug settings category origins = .ok values ↔
        ∃ found, GivesValues category presets found ∧ IsOutcome found values) ∧
      (∀ others, (∀ name, name ∈ others ↔ name ∈ origins) →
        slugsOf settings category others = slugsOf settings category origins ∧
          valuesBySlug settings category others = valuesBySlug settings category origins) ∧
      (∀ values, valuesBySlug settings category origins = .ok values →
        ∃ defaults themes customs,
          GivesValues category (askedAt settings category origins .default) defaults ∧
          GivesValues category (askedAt settings category origins .theme) themes ∧
          GivesValues category (askedAt settings category origins .custom) customs ∧
          ∀ slug, values.lookup slug = (lastValue? slug customs).or
            ((lastValue? slug themes).or (lastValue? slug defaults))) ∧
      ((∀ preset ∈ presets, category.HasValue preset) →
        slugsOf settings category origins =
          (valuesBySlug settings category origins).map (·.map (·.1))) := by
  intro presets
  have hpresets : presetsOf settings category origins = presets := presetsOf_eq _ _ _
  refine ⟨fun slugs => ?_, fun values => ?_, fun others hothers => ?_, fun values h => ?_,
    fun h => ?_⟩
  · rw [slugsOf_eq_ok_iff, hpresets]
  · rw [valuesBySlug_eq_ok_iff, hpresets]
  · have hsame : presetsOf settings category others = presetsOf settings category origins := by
      rw [presetsOf, presetsOf, Origin.ordered_congr hothers]
    rw [slugsOf, slugsOf, valuesBySlug, valuesBySlug, hsame]
    exact ⟨rfl, rfl⟩
  · exact exists_lookup_valuesBySlug h
  · exact slugsOf_eq_map_names (hpresets ▸ h)

/-- The defaults have a red and a blue. The theme has a red under another spelling, and a green
without a color, and the user has a red. The red stands before the blue and has the color of the
user, and the green is a slug without a value. -/
theorem slugs_and_values_of_red :
    let preset := fun slug color : String =>
      Value.map [(.text "slug", .text slug), (.text "color", .text color)]
    let settings := Value.map [(.text "color", .map [(.text "palette", .map [
      (.text "custom", .list [preset "red" "#d00"]),
      (.text "default", .list [preset "red" "#f00", .text "?", preset "blue" "#00f"]),
      (.text "theme", .list [preset "Red" "#e00", .map [(.text "slug", .text "green")]])])])]
    let asked := ["custom", "default", "theme", "custom"]
    let values := [("red", Value.text "#d00"), ("blue", Value.text "#00f")]
    slugsOf settings .palette asked = .ok ["red", "blue", "green"] ∧
      (∃ found, GivesValues .palette (askedAt settings .palette asked .default ++
          (askedAt settings .palette asked .theme ++ askedAt settings .palette asked .custom))
          found ∧ IsOutcome found values) ∧
      valuesBySlug settings .palette Origin.allNames = .ok values ∧
      (∃ defaults themes customs,
        GivesValues .palette (askedAt settings .palette asked .default) defaults ∧
        GivesValues .palette (askedAt settings .palette asked .theme) themes ∧
        GivesValues .palette (askedAt settings .palette asked .custom) customs ∧
        (lastValue? "red" customs).or ((lastValue? "red" themes).or (lastValue? "red" defaults)) =
          some (.text "#d00")) ∧
      slugsOf settings .palette ["default"] =
        (valuesBySlug settings .palette ["default"]).map (·.map (·.1)) := by
  intro preset settings asked values
  obtain ⟨-, hvalues, hothers, hprecedence, -⟩ := slugs_and_values settings .palette asked
  obtain ⟨-, -, -, -, hall⟩ := slugs_and_values settings .palette ["default"]
  have hcomputed : valuesBySlug settings .palette asked = .ok values := by decide +kernel
  have hsame : ∀ name, name ∈ Origin.allNames ↔ name ∈ asked := by
    simp [Origin.allNames, Origin.all, Origin.name, asked]
  have hdefault : askedAt settings .palette ["default"] .default ++
      (askedAt settings .palette ["default"] .theme ++
        askedAt settings .palette ["default"] .custom) =
      [[(.text "slug", .text "red"), (.text "color", .text "#f00")],
        [(.text "slug", .text "blue"), (.text "color", .text "#00f")]] := by decide +kernel
  refine ⟨by decide +kernel, (hvalues values).mp hcomputed, ?_, ?_, hall ?_⟩
  · rw [(hothers _ hsame).2, hcomputed]
  · obtain ⟨defaults, themes, customs, hdefaults, hthemes, hcustoms, hlookup⟩ :=
      hprecedence values hcomputed
    exact ⟨defaults, themes, customs, hdefaults, hthemes, hcustoms, (hlookup "red").symm⟩
  · rw [hdefault, List.forall_mem_cons, List.forall_mem_singleton]
    exact ⟨⟨.text "#f00", rfl, rfl⟩, ⟨.text "#00f", rfl, rfl⟩⟩

end ThemeSheet
