import ThemeSheet.Css.Safety
import ThemeSheet.Style.Property
import ThemeSheet.Theme.Basic

/-!
# Cleaning an untrusted tree

A tree from an untrusted source is cleaned before it is stored. It is brought to the current version
and pruned, and then its styles and its settings are written anew from what passes a check. Of the
styles of a scope remain the values whose declarations pass; of its settings remain the presets,
bare or keyed by origin, that are safe to name and whose values pass for every property they are
meant for. All other settings are dropped. A scope from which nothing remains is not written.

The check is given: any condition on a property and a value.

## Main definitions

* `Theme.cleanStyles`, `Theme.cleanSettings`, `Theme.clean`.
-/

namespace ThemeSheet.Theme

/-! ### Styles -/

/-- The declarations that pass a check. -/
def passing (check : SafetyCheck) : List Declaration → Except Refusal (List Declaration)
  | [] => .ok []
  | d :: rest => do
    let passed ← check d.name (.text d.value)
    let others ← passing check rest
    return if passed then d :: others else others

/-- The path that a property reads its value from. -/
def pathOf? (name : String) : Option Path :=
  (properties.find? fun p => p.name = name).map (·.path)

/-- Writes the value of a declaration as the styles have it. No mapping or list is to be written,
but neither is ever declared (`isMissing`), so it is not asked whether the value is one. -/
def keepValue (styles : Value) (kept : Entries) (d : Declaration) : Entries :=
  match pathOf? d.name with
  | none => kept
  | some path => Value.setEntries path (styles.getD path .emptyMap) kept

/-- The styles of a scope whose declarations pass a check. -/
def cleanStyles (check : SafetyCheck) (styles : Value) : Except Refusal Entries := do
  let declarations ← styleDeclarations styles .null
  let kept ← passing check declarations
  return kept.foldl (keepValue styles) []

/-! ### Settings -/

/-- Whether an item of a collection is a safe preset. -/
def isSafeItem (check : SafetyCheck) (category : Category) (item : Value) :
    Except Refusal Bool :=
  match item with
  | .map preset _ => do
    let value ← category.value preset
    isSafePreset check category.targets preset value
  | _ => .ok false

/-- The items of a collection that are safe presets. -/
def safeItems (check : SafetyCheck) (category : Category) :
    List Value → Except Refusal (List Value)
  | [] => .ok []
  | item :: rest => do
    let safe ← isSafeItem check category item
    let others ← safeItems check category rest
    return if safe then item :: others else others

/-- Writes the safe presets of the list at a path, if there is a list and any of them is safe. -/
def keepList (check : SafetyCheck) (settings : Value) (category : Category) (kept : Entries)
    (path : Path) : Except Refusal Entries :=
  match settings.at? path with
  | some (.list items _) => do
    let safe ← safeItems check category items
    return if safe.isEmpty then kept else Value.setEntries path (.list safe) kept
  | _ => .ok kept

/-- The paths of the lists of a category: that of the bare list, if there is one, and those of the
lists of the origins otherwise. -/
def listPaths (settings : Value) (category : Category) : List Path :=
  match settings.at? category.path with
  | some (.list _ _) => [category.path]
  | _ => Origin.all.map fun origin => category.path ++ [origin.name]

/-- Writes the safe presets of a category. -/
def keepCategory (check : SafetyCheck) (settings : Value) (kept : Entries) (category : Category) :
    Except Refusal Entries :=
  (listPaths settings category).foldlM (keepList check settings category) kept

/-- The settings of a scope that pass a check: safe presets alone. -/
def cleanSettings (check : SafetyCheck) (settings : Value) : Except Refusal Entries :=
  Category.all.foldlM (keepCategory check settings) []

/-! ### Trees -/

/-- Writes what remains of a scope, unless nothing does. -/
def keepScope (clean : Value → Except Refusal Entries) (tree : Value) (kept : Entries)
    (scope : Scope) : Except Refusal Entries := do
  let part := tree.getD scope.path .emptyMap
  if part.truthy then
    let remains ← clean part
    return if remains.isEmpty then kept else Value.setEntries scope.path (.map remains) kept
  else return kept

/-- A tree with a section replaced by what remains of it, or without it if nothing does. -/
def replaceSection (kept : Entries) (tree : Entries) (name : String) : Entries :=
  match Entries.named? name kept with
  | some v => if v.truthy then Entries.insert (.text name) v tree
      else Entries.erase (.text name) tree
  | none => Entries.erase (.text name) tree

/-- The cleaned tree of a raw value, with the metadata of the blocks that are known. -/
def clean (table : BlockTable) (check : SafetyCheck) (raw : Value) : Except Refusal Value := do
  let tree := sanitize table.names elementNames (Migration.run raw)
  let styles ← (styleScopes table (.map tree)).foldlM
    (keepScope (cleanStyles check) (.map tree)) []
  let kept ← (settingScopes [] (.map tree)).foldlM
    (keepScope (cleanSettings check) (.map tree)) styles
  return .map (["styles", "settings"].foldl (replaceSection kept) tree)

end ThemeSheet.Theme
