import ThemeSheet.Selector
import ThemeSheet.Tree.Basic

/-!
# Block types and what they compile to

A block type has a name and declares what it supports. From that follow the selectors its styles are
written under: one for the block, one for each element inside it, and perhaps one for the part of it
that a duotone filter applies to. A block without a selector of its own has a class name.

## Main definitions

* `BlockType`, `BlockMetadata`, `BlockMetadata.ofBlockType`, `defaultSelector`;
* `BlockTable`, the metadata of several blocks by name.
-/

namespace ThemeSheet

/-- A block type and what it declares to support. -/
structure BlockType where
  name : String
  supports : Entries
deriving Repr

/-- The selectors a block compiles to. -/
structure BlockMetadata where
  selector : String
  duotone : Option String
  elements : List (String × String)
deriving DecidableEq, Repr

/-- The metadata of blocks, in the order of their registration. -/
abbrev BlockTable := List (String × BlockMetadata)

/-- The selector of a block that declares none: a class named for the block, in which the namespace
`core/` is not mentioned. -/
def defaultSelector (blockName : String) : String :=
  let cs := blockName.toList
  let short := (Text.afterStart? "core/".toList cs).getD cs
  ".wp-block-" ++ String.ofList (short.map fun c => if c = '/' then '-' else c)

namespace BlockType

/-- The selector of a block: the declared one, if it is a text. -/
def selector (block : BlockType) : String :=
  match Entries.named? "__experimentalSelector" block.supports with
  | some (.text s) => s
  | _ => defaultSelector block.name

/-- The target of duotone filters inside a block, if a text is declared for it. -/
def duotone? (block : BlockType) : Option String :=
  ((Entries.named? "color" block.supports).bind
    (Value.entryNamed? "__experimentalDuotone")).bind Value.text?

end BlockType

/-- The selector of an element below every branch of a selector. -/
def elementSelector (selector element : String) : String :=
  Selector.append selector (" " ++ element)

namespace BlockMetadata

/-- The metadata of a block type, with the given elements. -/
def ofBlockType (elements : List (String × String)) (block : BlockType) : BlockMetadata :=
  { selector := block.selector
    duotone := block.duotone?
    elements := elements.map fun e => (e.1, elementSelector block.selector e.2) }

end BlockMetadata

namespace BlockTable

/-- The metadata of a block, if it is in the table. -/
def find? (table : BlockTable) (name : String) : Option BlockMetadata := table.lookup name

/-- The names of the blocks in the table. -/
def names (table : BlockTable) : List String := table.map (·.1)

/-- The metadata of block types, with the given elements. -/
def ofBlocks (elements : List (String × String)) (blocks : List BlockType) : BlockTable :=
  blocks.map fun block => (block.name, BlockMetadata.ofBlockType elements block)

end BlockTable

end ThemeSheet
