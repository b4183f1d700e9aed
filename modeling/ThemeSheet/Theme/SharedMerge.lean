import ThemeSheet.Theme.Merge
import ThemeSheet.Theme.Reach
import ThemeSheet.Tree.SharedEquality

/-!
# Merging themes with shared collections

Where a tree has shared collections, merging has to say which of them stay shared. Whatever is kept
of one tree at a level of the overlay is copied at once, and so is every value that is taken over
from the other tree; what is copied at once stays shared within itself, and is shared with nothing
else. What the overlay does not decide is then written into a collection wherever that collection
stands, so that presets which are written for one category may appear in another; and a name that a
preset takes from a default appears wherever the preset stands in the list of presets.

A mapping inside itself is overlaid as often as the other tree asks for it. Two trees that go on for
ever at the same places cannot be overlaid, and slugs that go on for ever alike cannot be told
apart: both are refused.

In trees without marks all of this is `Theme.merge`.

## Main definitions

* `Copying`, a step that copies; `overlayShared`, the overlay;
* `Theme.mergeShared`.
-/

namespace ThemeSheet

/-- A step that copies values, with the offset that the marks of the next copy have. -/
abbrev Copying := StateT Nat (Except Refusal)

namespace Copying

/-- The offset of a copy, for marks below a bound. -/
def offset (bound : Nat) : Copying Nat := do
  let next ← get
  set (next + bound)
  return next

/-- A copy of a part of a tree, for a reach. -/
def copy (t : LinkedTree) (reach : Reach) (v : Value) : Copying Value := do
  return (t.part reach v).raised (← offset t.bound)

/-- A copy of the entries of a mapping in a tree, for a reach. They stay shared with each other. -/
def copyEntries (t : LinkedTree) (reach : Reach) (es : Entries) : Copying Entries := do
  let offset ← offset t.bound
  return es.map fun entry =>
    (entry.1, (t.part (reach.entry entry.1) entry.2).raised offset)

end Copying

/-! ### Overlaying -/

/-- The entries of a mapping of one tree overlaid with those of a mapping of another, in copies for
a reach, with the pairs of shared mappings around them. No path through both trees is longer than
the fuel before such a pair comes again. -/
def overlayShared (base incoming : LinkedTree) :
    Nat → List (Mark × Mark) → Reach → Entries → Entries → Copying Entries
  | 0, _, _, _, _ => throw .endless
  | fuel + 1, around, reach, old, new => do
    let copied ← Copying.copyEntries base reach old
    new.foldlM (fun es entry => do
      let reach := reach.entry entry.1
      let value ← match entry.2, Entries.get? entry.1 old with
        | .map below mark, some (.map under same) => do
          let around ← Mark.pairsWithin .endless same mark around
          pure (.map (← overlayShared base incoming fuel around reach (base.entriesOf under same)
            (incoming.entriesOf below mark)))
        | v, _ => Copying.copy incoming reach v
      return Entries.insert entry.1 value es) copied

namespace Theme

/-! ### Presets of the defaults -/

/-- Whether an item has a slug that is none of the given ones. -/
def hasFreshSharedSlug (slugs : List Value) (item : Value) : Except Refusal Bool :=
  match item.entryNamed? "slug" with
  | some slug => do return !(← slug.sharedMember slugs)
  | none => .ok false

/-- A collection without the items whose slugs are taken. -/
def withoutSharedSlugs (slugs : List Value) (collection : Value) : Except Refusal Value :=
  match collection with
  | .list items mark =>
    if slugs.isEmpty then .ok (.list items mark)
    else do return .list (← items.filterM (hasFreshSharedSlug slugs))
  | v => .ok v

/-- The name that the default presets of a scope give to a slug. -/
def sharedName? (tree : Value) (collection : Path) (slug : Value) :
    Except Refusal (Option Value) :=
  match tree.at? (collection ++ [Origin.default.name]) with
  | some (.list items _) => do
    let found ← (items.filter Value.isMap).findM? fun item => (itemSlug item).equalsShared slug
    return (found.bind (Value.entryNamed? "name")).filter fun name => !name.isNull
  | _ => .ok none

/-- An entry with a name, written into an item of a list wherever the item stands in the list. -/
def nameAt (items : List Value) (index : Nat) (name : Value) : List Value :=
  match items[index]? with
  | some (.map _ (some mark)) =>
    let named := LinkedTree.withEntry { tree := .list items } mark "name" name
    ((named.writtenOut listReach).items?).getD items
  | _ => items.modify index (Value.onMap (Entries.insert (.text "name") name))

/-- A list of presets after one of them has taken the name of the default preset of its slug, if it
has none. -/
def nameShared (tree : Value) (collection : Path) (items : List Value) (index : Nat) :
    Except Refusal (List Value) :=
  match items[index]? with
  | some (.map es mark) =>
    if Entries.contains (.text "name") es then .ok items
    else do
      match ← sharedName? tree collection (itemSlug (.map es mark)) with
      | some name => return nameAt items index name
      | none => return items
  | _ => .ok items

/-- A collection whose items have taken names from the default presets, one after the other. -/
def withSharedNames (tree : Value) (collection : Path) (content : Value) : Except Refusal Value :=
  match content with
  | .list items mark => do
    return .list (← (List.range items.length).foldlM (nameShared tree collection) items) mark
  | v => .ok v

/-! ### Taking over -/

/-- What a collection of an origin becomes in the tree it is merged into. -/
def mergedShared (tree : Value) (scope : Path) (slugs : List Value) (category : Category)
    (origin : Origin) (content : Value) : Except Refusal Value :=
  if origin = .theme then do
    let named ← if category.inheritsNames then
      withSharedNames tree (scope ++ category.path) content else pure content
    if mayOverride tree scope category then return named else withoutSharedSlugs slugs named
  else .ok content

/-- Takes over the collection of a category and an origin at a scope. -/
def takeShared (incoming : LinkedTree) (scope : Path) (slugs : Category → List Value)
    (category : Category) (tree : Value) (origin : Origin) : Copying Value := do
  let path := scope ++ category.path
  match incoming.tree.solid? (path ++ [origin.name]) with
  | none => return tree
  | some content =>
    let copy ← Copying.copy incoming listReach content
    return tree.setShared reach path origin.name
      (← mergedShared tree scope (slugs category) category origin copy)

/-- Takes over the units of spacing at a scope. -/
def takeSharedUnits (incoming : LinkedTree) (scope : Path) (tree : Value) : Copying Value := do
  let path := scope ++ ["spacing"]
  match incoming.tree.solid? (path ++ ["units"]) with
  | none => return tree
  | some units => return tree.setShared reach path "units" (← Copying.copy incoming .folded units)

/-- Takes over what a scope replaces whole. `rootSlugs` are the slugs of the default presets at the
root before any scope was reached. -/
def takeSharedScope (incoming : LinkedTree) (rootSlugs : Category → List Value) (tree : Value)
    (scope : Path) : Copying Value := do
  let slugs := fun category => rootSlugs category ++ defaultSlugs tree scope category
  let tree ← takeSharedUnits incoming scope tree
  Category.all.foldlM (fun tree category =>
    Origin.all.foldlM (takeShared incoming scope slugs category) tree) tree

/-- The tree of a theme with that of another merged into it, where either has shared collections. -/
def mergeSharedTrees (base incoming : LinkedTree) : Except Refusal Value := do
  let merging : Copying Value := do
    let fuel := (base.size + 1) * (incoming.size + 1)
    let tree := Value.map (← overlayShared base incoming fuel [] reach
      (base.tree.entries?.getD []) (incoming.tree.entries?.getD []))
    ((settingScopes [] incoming.tree).map (·.path)).foldlM
      (takeSharedScope incoming (defaultSlugs tree ["settings"])) tree
  return (← merging.run 0).1

/-- A theme with another merged into it, of which either may have shared collections; its origin
stays. -/
def mergeShared (theme incoming : Theme) : Except Refusal Theme :=
  if theme.tree.isShared || incoming.tree.isShared then do
    let tree ← mergeSharedTrees { tree := theme.tree } { tree := incoming.tree }
    return { theme with tree }
  else .ok (theme.merge incoming)

end Theme

end ThemeSheet
