import ThemeSheet.Preset.Collection

/-!
# What presets compile to

The settings of a scope compile to custom properties and to utility classes. Every preset with a
value declares a custom property; the `custom` setting, a tree of any shape, declares one for each
of its leaves, named for the way to it. Every slug of a category has the utility classes of the
category, which set a property to the custom property of the slug, and do so with importance, to
win over the styles of blocks.

## Main definitions

* `presetDeclarations`, `customDeclarations`, `presetRules`;
* `flatten`, the leaves of a tree under joined slugs.
-/

namespace ThemeSheet

/-! ### Custom properties of presets -/

/-- The declarations of a category. -/
def categoryDeclarations (settings : Value) (origins : List String) (category : Category) :
    Except Refusal (List Declaration) := do
  let values ← valuesBySlug settings category origins
  values.mapM fun entry => do
    let text ← cssText entry.2
    return ⟨fillSlug category.customProperty entry.1, text⟩

/-- The declarations of the presets of all categories. -/
def presetDeclarations (settings : Value) (origins : List String) :
    Except Refusal (List Declaration) := do
  let groups ← Category.all.mapM (categoryDeclarations settings origins)
  return groups.flatten

/-! ### Utility classes -/

/-- The rule of a class for a slug. -/
def classRule (category : Category) (selector : String) (template property slug : String) : Rule :=
  { selector := Selector.append selector (fillSlug template slug)
    declarations :=
      [⟨property, "var(" ++ fillSlug category.customProperty slug ++ ") !important"⟩] }

/-- The rules of a category: class by class, and for each class slug by slug. -/
def categoryRules (settings : Value) (selector : String) (origins : List String)
    (category : Category) : Except Refusal (List Rule) := do
  let slugs ← slugsOf settings category origins
  return category.classes.flatMap fun entry =>
    slugs.map (classRule category selector entry.1 entry.2)

/-- The rules of the utility classes of a scope. Those of the root stand under no selector, to be
no more specific than a class is. -/
def presetRules (settings : Value) (selector : String) (origins : List String) :
    Except Refusal (List Rule) := do
  let under := if selector = rootSelector then "" else selector
  let groups ← Category.all.mapM (categoryRules settings under origins)
  return groups.flatten

/-! ### The custom tree -/

mutual

/-- Writes the leaves of entries under their joined slugs, after a beginning. The marks are those
of the mappings around the entries. -/
def flattenEntries (start token : String) (around : List Mark) (done : List (String × Value)) :
    List (Key × Value) → Except Refusal (List (String × Value))
  | [] => .ok done
  | (k, v) :: rest => do
    let slug ← Slug.ofKey k
    let done ← flattenValue (start ++ slug) token around done v
    flattenEntries start token around done rest

/-- Writes a leaf under a name, or the leaves of a mapping under names that begin with it. -/
def flattenValue (name token : String) (around : List Mark) (done : List (String × Value)) :
    Value → Except Refusal (List (String × Value))
  | .map es mark =>
    if Mark.recurs mark around then .error .endless
    else do
      let inner ← flattenEntries (name ++ token) token (Mark.within mark around) [] es
      return Named.putAll done inner
  | v => .ok (Named.put name v done)

end

/-- The leaves of a tree. The name of a leaf is the beginning and then the slugs of the keys on the
way, with the token between them; a later leaf of a name takes the place of an earlier one. -/
def flatten (start token : String) (tree : Value) : Except Refusal (List (String × Value)) :=
  match tree with
  | .map es mark => flattenEntries start token (Mark.within mark []) [] es
  | _ => .ok []

/-- The declarations of the `custom` setting. -/
def customDeclarations (settings : Value) : Except Refusal (List Declaration) := do
  let leaves ← flatten "" "--" (settings.getD ["custom"] .emptyMap)
  (leaves.filter fun leaf => !leaf.2.isNull).mapM fun leaf => do
    let text ← cssText leaf.2
    return ⟨"--wp--custom--" ++ leaf.1, text⟩

end ThemeSheet
