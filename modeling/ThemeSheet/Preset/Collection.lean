import ThemeSheet.Preset.Category
import ThemeSheet.Preset.Ordered
import ThemeSheet.Scope
import ThemeSheet.Slug.Basic

/-!
# Collections of presets

The presets of a category at given origins form one list: those of the defaults, then those of the
theme, then those of the user, each in its own order. An entry takes part if it is a mapping with a
slug that is not null.

From that list follow the slugs, each once and in the order of their first occurrence, and the
values by slug, where the last preset of a slug gives the value and the first one the place.

A raw tree has a bare list of presets where a compiled one has a mapping from origins to lists;
`keyByOrigin` brings a tree from the one form to the other.

## Main definitions

* `presetsOf`, `slugsOf`, `valuesBySlug`;
* `keyByOrigin`.
-/

namespace ThemeSheet

/-! ### Presets of a category -/

/-- The items of the list of presets that a category has at an origin. -/
def presetItems (settings : Value) (category : Category) (origin : Origin) : List Value :=
  ((settings.at? (category.path ++ [origin.name])).bind Value.items?).getD []

/-- A value as a preset: a mapping whose slug is not null. -/
def asPreset? (v : Value) : Option Entries :=
  match v with
  | .map es _ =>
    match Entries.named? "slug" es with
    | none => none
    | some .null => none
    | some _ => some es
  | _ => none

/-- The slug of a preset, as it is written. -/
def rawSlug (preset : Entries) : Value := (Entries.named? "slug" preset).getD .null

/-- The presets of a category at the named origins, in the order of precedence. -/
def presetsOf (settings : Value) (category : Category) (origins : List String) : List Entries :=
  (Origin.ordered origins).flatMap fun origin =>
    (presetItems settings category origin).filterMap asPreset?

/-- The slugs of a category, in the order of their first occurrence. -/
def slugsOf (settings : Value) (category : Category) (origins : List String) :
    Except Refusal (List String) := do
  let slugs ← (presetsOf settings category origins).mapM fun preset => Slug.ofValue (rawSlug preset)
  return Named.distinct slugs

/-- The slug and the value of a preset; nothing if the value is null. -/
def slugAndValue? (category : Category) (preset : Entries) :
    Except Refusal (Option (String × Value)) := do
  let v ← category.value preset
  if v.isNull then return none
  else
    let slug ← Slug.ofValue (rawSlug preset)
    return some (slug, v)

/-- The values of a category by slug. A later preset of a slug gives its value to the place of the
first one. -/
def valuesBySlug (settings : Value) (category : Category) (origins : List String) :
    Except Refusal (List (String × Value)) := do
  let found ← (presetsOf settings category origins).mapM (slugAndValue? category)
  return Named.putAll [] (found.filterMap id)

/-! ### Keying by origin -/

/-- A collection keyed by the name of an origin: a list is, and so is a value that counts as false
and is not null. Anything else is keyed already. -/
def keyedCollection? (origin : String) (collection : Value) : Option Value :=
  let keyed := Value.map [(.text origin, collection)]
  match collection with
  | .null => none
  | .list _ _ => some keyed
  | v => if v.truthy then none else some keyed

/-- Keys the collection at a path. -/
def keyAt (origin : String) (tree : Value) (path : Path) : Value :=
  match (tree.at? path).bind (keyedCollection? origin) with
  | some keyed => tree.set path keyed
  | none => tree

/-- The paths of the collections of a scope. -/
def collectionPaths (scope : Scope) : List Path :=
  Category.all.map fun category => scope.path ++ category.path

/-- Keys every collection of the given scopes by the name of an origin. -/
def keyByOrigin (scopes : List Scope) (origin : String) (tree : Value) : Value :=
  (scopes.flatMap collectionPaths).foldl (keyAt origin) tree

end ThemeSheet
