import ThemeSheet.Preset.Collection
import ThemeSheet.Proofs.Preset.Ordered
import ThemeSheet.Proofs.Results

/-!
# Values by slug

The values of a category by slug are made from one list, in which the presets of the origins follow
each other in the order of precedence. So the value of a slug is found by asking the last origin
first: the last preset of the slug that it has gives the value, and only if it has none the origin
before it is asked.

## Main definitions

* `valuesOf`, the slugs and values of the presets of one list, in their order;
* `lastValue?`, the value that the last of them gives to a slug.

## Main results

* `exists_of_mem_valuesOf`: slugs and values come from presets;
* `map_lookup_valuesBySlug`: the value of a slug, asked of the origins one after the other.
-/

namespace ThemeSheet

/-! ### Values of a list of presets -/

/-- The slugs and values of the presets among the items of a list, in their order. An item takes
part if it is a mapping whose slug is not null and whose value is not null. -/
def valuesOf (category : Category) (items : List Value) :
    Except Refusal (List (String × Value)) := do
  let found ← (items.filterMap asPreset?).mapM (slugAndValue? category)
  return found.filterMap id

/-- The value that the last entry of a slug gives. -/
def lastValue? (slug : String) (values : List (String × Value)) : Option Value :=
  values.reverse.lookup slug

theorem lastValue?_append (slug : String) (vs ws : List (String × Value)) :
    lastValue? slug (vs ++ ws) = (lastValue? slug ws).or (lastValue? slug vs) := by
  rw [lastValue?, List.reverse_append, List.lookup_append]
  rfl

/-- The values of two lists, one after the other. -/
theorem valuesOf_append (category : Category) (items others : List Value) :
    valuesOf category (items ++ others) = do
      let vs ← valuesOf category items
      let ws ← valuesOf category others
      return vs ++ ws := by
  unfold valuesOf
  rw [List.filterMap_append, List.mapM_append]
  simp only [bind_assoc, pure_bind, List.filterMap_append]

/-- A preset without a value is passed over. -/
theorem slugAndValue?_of_null {category : Category} {preset : Entries}
    (h : category.value preset = .ok .null) : slugAndValue? category preset = .ok none := by
  rw [slugAndValue?, h]
  rfl

/-- A preset with a value has its slug computed. -/
theorem slugAndValue?_of_value {category : Category} {preset : Entries} {v : Value}
    (h : category.value preset = .ok v) (hnull : v.isNull = false) :
    slugAndValue? category preset =
      (Slug.ofValue (rawSlug preset)).map fun slug => some (slug, v) := by
  rw [slugAndValue?, h]
  show (if v.isNull = true then _ else _) = _
  rw [hnull]
  cases Slug.ofValue (rawSlug preset) <;> rfl

/-- The slug of a preset stands under its key. -/
theorem entryNamed?_of_asPreset? {item : Value} {preset : Entries}
    (h : asPreset? item = some preset) : item.entryNamed? "slug" = some (rawSlug preset) := by
  unfold asPreset? at h
  split at h
  next es mark =>
    rw [rawSlug, Value.entryNamed?]
    split at h
    · cases h
    · cases h
    next slug _ hslug =>
      cases h
      rw [hslug]
      rfl
  next => cases h

/-- A slug and a value come from a preset. -/
theorem exists_of_mem_valuesOf {category : Category} {items : List Value}
    {vs : List (String × Value)} (h : valuesOf category items = .ok vs) {e : String × Value}
    (he : e ∈ vs) : ∃ item ∈ items, ∃ preset, asPreset? item = some preset ∧
      Slug.ofValue (rawSlug preset) = .ok e.1 ∧ category.value preset = .ok e.2 := by
  obtain ⟨found, hfound, h⟩ := Result.exists_of_bind h
  cases h
  obtain ⟨o, ho, hoe⟩ := List.mem_filterMap.mp he
  obtain ⟨preset, hpreset, hboth⟩ := Result.exists_of_mem_mapM hfound ho
  obtain ⟨item, hitem, hsome⟩ := List.mem_filterMap.mp hpreset
  obtain ⟨v, hv, hboth⟩ := Result.exists_of_bind hboth
  cases hoe
  split at hboth
  · cases hboth
  · obtain ⟨slug, hslug, hboth⟩ := Result.exists_of_bind hboth
    cases hboth
    exact ⟨item, hitem, preset, hsome, hslug, hv⟩

/-- The last value of a slug is one of its values. -/
theorem mem_of_lastValue? {slug : String} {vs : List (String × Value)} {v : Value}
    (h : lastValue? slug vs = some v) : (slug, v) ∈ vs :=
  List.mem_reverse.mp (Named.mem_of_lookup h)

/-! ### Values by slug -/

/-- The items of the lists that a category has at the named origins. -/
def itemsOf (settings : Value) (category : Category) (origins : List String) : List Value :=
  (Origin.ordered origins).flatMap (presetItems settings category)

theorem valuesBySlug_eq (settings : Value) (category : Category) (origins : List String) :
    valuesBySlug settings category origins =
      (valuesOf category (itemsOf settings category origins)).map (Named.putAll []) := by
  have hpresets : presetsOf settings category origins =
      (itemsOf settings category origins).filterMap asPreset? := by
    rw [presetsOf, itemsOf, List.filterMap_flatMap]
  rw [valuesBySlug, valuesOf, hpresets]
  cases ((itemsOf settings category origins).filterMap asPreset?).mapM (slugAndValue? category) <;>
    rfl

/-- No slug stands twice among the values of a category. -/
theorem nodup_names_valuesBySlug {settings : Value} {category : Category} {origins : List String}
    {values : List (String × Value)} (h : valuesBySlug settings category origins = .ok values) :
    (values.map (·.1)).Nodup := by
  obtain ⟨found, -, h⟩ := Result.exists_of_bind h
  cases h
  exact Named.nodup_names_putAll _

/-- The value that is found under a slug is the last one of it. -/
theorem map_lookup_valuesBySlug_eq (settings : Value) (category : Category)
    (origins : List String) (slug : String) :
    (valuesBySlug settings category origins).map (·.lookup slug) =
      (valuesOf category (itemsOf settings category origins)).map (lastValue? slug) := by
  rw [valuesBySlug_eq]
  cases valuesOf category (itemsOf settings category origins) with
  | error e => rfl
  | ok vs =>
    have hlookup : (Named.putAll [] vs).lookup slug = lastValue? slug vs := by
      rw [Named.lookup_putAll, List.lookup_nil, Option.or_none]
      rfl
    exact congrArg Except.ok hlookup

/-- **The value of a slug** is that of the last preset of the slug that the user has, if there is
one, else of the last one that the theme has, else of the last one of the defaults. -/
theorem map_lookup_valuesBySlug (settings : Value) (category : Category) (slug : String) :
    (valuesBySlug settings category Origin.allNames).map (·.lookup slug) = do
      let defaults ← valuesOf category (presetItems settings category .default)
      let themes ← valuesOf category (presetItems settings category .theme)
      let customs ← valuesOf category (presetItems settings category .custom)
      return (lastValue? slug customs).or
        ((lastValue? slug themes).or (lastValue? slug defaults)) := by
  have hitems : itemsOf settings category Origin.allNames =
      presetItems settings category .default ++ (presetItems settings category .theme ++
        presetItems settings category .custom) := by
    have hordered : Origin.ordered Origin.allNames = [.default, .theme, .custom] := by decide
    rw [itemsOf, hordered]
    simp
  rw [map_lookup_valuesBySlug_eq, hitems, valuesOf_append, valuesOf_append]
  cases valuesOf category (presetItems settings category .default) with
  | error e => rfl
  | ok defaults =>
    cases valuesOf category (presetItems settings category .theme) with
    | error e => rfl
    | ok themes =>
      cases valuesOf category (presetItems settings category .custom) with
      | error e => rfl
      | ok customs =>
        have happend : lastValue? slug (defaults ++ (themes ++ customs)) =
            (lastValue? slug customs).or
              ((lastValue? slug themes).or (lastValue? slug defaults)) := by
          rw [lastValue?_append, lastValue?_append, Option.or_assoc]
        exact congrArg Except.ok happend

end ThemeSheet
