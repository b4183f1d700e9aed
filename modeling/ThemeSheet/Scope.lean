import ThemeSheet.Blocks.Metadata
import ThemeSheet.Schema.Theme
import ThemeSheet.Tree.Path

/-!
# Scopes

A scope is a part of a theme tree that compiles to rules of its own: the root, an element, a block,
or an element inside a block. It pairs the path to that part with the selector its rules are written
under. A scope without a selector compiles to nothing; it is listed because its part is there.

The scopes of a tree come in the order of the stylesheet: the root, its elements, then every block
followed by its elements.

## Main definitions

* `Scope`, `styleScopes`, `settingScopes`.
-/

namespace ThemeSheet

/-- The selector of the root. -/
def rootSelector : String := "body"

/-- A part of a theme tree and the selectors of its rules. -/
structure Scope where
  path : Path
  selector : Option String
  duotone : Option String := none
deriving DecidableEq, Repr

namespace Scope

/-- The names among the keys of a mapping. -/
def entryNames (v : Value) : List String :=
  match v with
  | .map es _ => es.filterMap fun entry => match entry.1 with
    | .text name => some name
    | _ => none
  | _ => []

/-- The elements at the root. -/
def ofRootElements (styles : Value) : List Scope :=
  match styles.entryNamed? "elements" with
  | some part => (entryNames part).map fun name =>
      { path := ["styles", "elements", name], selector := elements.lookup name }
  | none => []

/-- A block with styles, followed by its elements. -/
def ofStyledBlock (table : BlockTable) (name : String) (block : Value) : List Scope :=
  let metadata := table.find? name
  { path := ["styles", "blocks", name]
    selector := metadata.map (·.selector)
    duotone := metadata.bind (·.duotone) } ::
  match block.entryNamed? "elements" with
  | some part => (entryNames part).map fun element =>
      { path := ["styles", "blocks", name, "elements", element]
        selector := metadata.bind fun m => m.elements.lookup element }
  | none => []

/-- The blocks with styles, each followed by its elements. -/
def ofStyledBlocks (table : BlockTable) (styles : Value) : List Scope :=
  match styles.entryNamed? "blocks" with
  | some (.map blocks _) => blocks.flatMap fun entry => match entry.1 with
    | .text name => ofStyledBlock table name entry.2
    | _ => []
  | _ => []

/-- A block with settings. -/
def ofSettledBlock (table : BlockTable) (name : String) : Scope :=
  { path := ["settings", "blocks", name]
    selector := (table.find? name).map (·.selector) }

end Scope

/-- The scopes that hold styles, in the order of the stylesheet. -/
def styleScopes (table : BlockTable) (tree : Value) : List Scope :=
  match tree.entryNamed? "styles" with
  | some (.map es _) =>
    { path := ["styles"], selector := some rootSelector } ::
      (Scope.ofRootElements (.map es) ++ Scope.ofStyledBlocks table (.map es))
  | _ => []

/-- The scopes that hold settings: the root, then every block. -/
def settingScopes (table : BlockTable) (tree : Value) : List Scope :=
  match tree.entryNamed? "settings" with
  | some (.map es _) =>
    { path := ["settings"], selector := some rootSelector } ::
      match Entries.named? "blocks" es with
      | some blocks => (Scope.entryNames blocks).map (Scope.ofSettledBlock table)
      | none => []
  | _ => []

end ThemeSheet
