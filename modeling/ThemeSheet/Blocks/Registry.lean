import ThemeSheet.Blocks.Metadata
import ThemeSheet.Tree.Listed

/-!
# The block registry and its cache

A registry holds block types under their names, in the order in which the names were first
registered. Every change raises its revision, so that a cache can tell whether the table it has
built is still that of the registry: the revision never returns to an earlier value.

A cache has its own elements. Asked for its table it answers with the one it holds if the registry
has not changed since that table was built, and builds a new one otherwise. Every table it builds
has a serial number, by which two answers can be told to be one and the same table.

## Main definitions

* `Registry`, with `register`, `unregister` and `clear`;
* `Registration`, the checks before a block type is registered;
* `MetadataCache`, with `get` and `invalidate`.
-/

namespace ThemeSheet

/-- Registered block types, and how often the registry has changed. -/
structure Registry where
  blocks : List BlockType := []
  revision : Nat := 0
deriving Repr

namespace Registry

/-- The registry without blocks that has never changed. -/
def empty : Registry := {}

/-- The block registered under a name. -/
def find? (registry : Registry) (name : String) : Option BlockType :=
  registry.blocks.find? fun block => block.name = name

/-- Whether a block is registered under a name. -/
def isRegistered (registry : Registry) (name : String) : Bool := (registry.find? name).isSome

/-- The names in the order of their registration. -/
def names (registry : Registry) : List String := registry.blocks.map (·.name)

/-- A block in the place of the one of its name, or at the end. -/
def place (block : BlockType) : List BlockType → List BlockType
  | [] => [block]
  | b :: rest => if b.name = block.name then block :: rest else b :: place block rest

/-- Registers a block type; an earlier one of its name is replaced in its place. -/
def register (registry : Registry) (block : BlockType) : Registry :=
  ⟨place block registry.blocks, registry.revision + 1⟩

/-- Removes the block type of a name. Nothing changes if there is none. -/
def unregister (registry : Registry) (name : String) : Registry :=
  if registry.isRegistered name then
    ⟨registry.blocks.filter fun block => block.name ≠ name, registry.revision + 1⟩
  else registry

/-- Removes all block types. -/
def clear (registry : Registry) : Registry := ⟨[], registry.revision + 1⟩

/-- The table of the registered blocks, with the given elements. -/
def table (registry : Registry) (elements : List (String × String)) : BlockTable :=
  .ofBlocks elements registry.blocks

end Registry

/-! ### Registration -/

namespace Registration

/-- Why a block type is not registered. -/
inductive Error where
  /-- The name is not a text, or a support has a name that is not one. -/
  | invalid
  /-- The supports have no items, or the name of one cannot be looked up. -/
  | items (fault : ItemFault)
  /-- A support at a position has no items and so is no pair. -/
  | noPair (position : Nat)
  /-- A support at a position has some other number of items than two. -/
  | pairLength (position length : Nat)
deriving DecidableEq, Repr

/-- The wording of an error about supports; an invalid declaration has none. -/
def Error.message? : Error → Option String
  | .invalid => none
  | .items fault => some fault.message
  | .noPair position =>
    some ("cannot convert dictionary update sequence element #" ++ toString position ++
      " to a sequence")
  | .pairLength position length =>
    some ("dictionary update sequence element #" ++ toString position ++ " has length " ++
      toString length ++ "; 2 is required")

/-- A support that is given as a pair of a name and a value, at a position of a list. -/
def pair (item : Value) (position : Nat) : Except Error (Key × Value) :=
  match item.listed? with
  | none => .error (.noPair position)
  | some [name, v] =>
    match name.key? with
    | some key => .ok (key, v)
    | none => .error (.items (.noLookup name.kind))
  | some items => .error (.pairLength position items.length)

/-- The supports that a list of pairs declares. -/
def pairs (v : Value) : Except Error Entries :=
  match v.listed with
  | .error fault => .error (.items fault)
  | .ok items => do
    let entries ← items.zipIdx.mapM fun item => pair item.1 item.2
    return Entries.ofList entries

/-- The supports that a value declares: a mapping is what it declares, a value that counts as false
declares none, and any other one has to be a list of pairs. -/
def supports (v : Value) : Except Error Entries :=
  match v with
  | .map es _ => .ok es
  | v => if v.truthy then pairs v else .ok []

/-- Whether every key is a text. -/
def namesOnly (es : Entries) : Bool :=
  es.all fun entry => match entry.1 with
    | .text _ => true
    | _ => false

/-- The block type that a name and supports declare. -/
def blockType (name declared : Value) : Except Error BlockType := do
  let es ← supports declared
  match name with
  | .text s => if namesOnly es then return ⟨s, es⟩ else throw .invalid
  | _ => throw .invalid

/-- Registers what a name and supports declare. A registry is left as it was by what is no block
type. -/
def register (registry : Registry) (name declared : Value) :
    Except Error (BlockType × Registry) := do
  let block ← blockType name declared
  return (block, registry.register block)

end Registration

/-! ### The cache -/

/-- A table with the revision it was built at, and its serial number. -/
structure BuiltTable where
  table : BlockTable
  revision : Nat
  serial : Nat
deriving Repr

/-- The metadata of a registry's blocks, built when it is asked for and kept while it is valid. -/
structure MetadataCache where
  elements : List (String × String)
  held : Option BuiltTable := none
  /-- How many tables have been built. -/
  builds : Nat := 0
deriving Repr

namespace MetadataCache

/-- The cache of elements that holds nothing yet. -/
def ofElements (elements : List (String × String)) : MetadataCache := { elements }

/-- The table held, if the registry has not changed since it was built. -/
def valid? (cache : MetadataCache) (registry : Registry) : Option BuiltTable :=
  cache.held.filter fun built => built.revision = registry.revision

/-- A new table of the registry. -/
def build (cache : MetadataCache) (registry : Registry) : BuiltTable :=
  ⟨registry.table cache.elements, registry.revision, cache.builds + 1⟩

/-- The table of the registry, and the cache that holds it. -/
def get (cache : MetadataCache) (registry : Registry) : BuiltTable × MetadataCache :=
  match cache.valid? registry with
  | some built => (built, cache)
  | none =>
    let built := cache.build registry
    (built, { cache with held := some built, builds := cache.builds + 1 })

/-- The cache without the table it holds. -/
def invalidate (cache : MetadataCache) : MetadataCache := { cache with held := none }

end MetadataCache

end ThemeSheet
