import ThemeSheet.Tree.Children

/-!
# Paths into a theme tree

A path is a list of names, read from the root. Null is a value of its own in a theme tree (a null
block gap switches the gap off), so a look-up has three outcomes and not two: the path is absent, it
holds null, or it holds a value. Whatever is not a mapping on the way makes the path absent, and so
does an empty path.

Writing creates the mappings that are missing on the way and puts them in the place of anything that
is not a mapping. Removing only ever removes.

## Main definitions

* `Lookup`, `Value.lookup`, `Value.getD`;
* `Value.set`, `Value.unset`, and their forms on entries.
-/

namespace ThemeSheet

/-- A path into a tree. -/
abbrev Path := List String

/-- What a path leads to. -/
inductive Lookup where
  | absent
  | null
  | present (value : Value)
deriving Repr, BEq

namespace Lookup

/-- The outcome of reading a value, or of finding none. -/
def ofOption : Option Value → Lookup
  | none => .absent
  | some .null => .null
  | some v => .present v

/-- The value found, null included. -/
def value? : Lookup → Option Value
  | .absent => none
  | .null => some .null
  | .present v => some v

/-- Whether the path leads nowhere. -/
def isAbsent : Lookup → Bool
  | .absent => true
  | _ => false

/-- Whether the path holds null. -/
def isNull : Lookup → Bool
  | .null => true
  | _ => false

/-- Whether the path holds a value other than null. -/
def isPresent : Lookup → Bool
  | .present _ => true
  | _ => false

@[simp] theorem value?_ofOption (o : Option Value) : (ofOption o).value? = o := by
  rcases o with _ | v
  · rfl
  · cases v <;> rfl

end Lookup

namespace Value

/-! ### Reading -/

/-- The value reached by walking the whole path; an empty walk stays where it is. -/
def walk? : Path → Value → Option Value
  | [], v => some v
  | name :: rest, v => (v.entryNamed? name).bind (walk? rest)

/-- The value at a non-empty path. -/
def at? (path : Path) (tree : Value) : Option Value :=
  if path.isEmpty then none else tree.walk? path

/-- What a path leads to. -/
def lookup (path : Path) (tree : Value) : Lookup := .ofOption (tree.at? path)

/-- The value at a path, or a default where the path is absent. A null is found like any value. -/
def getD (path : Path) (tree : Value) (default : Value) : Value := (tree.at? path).getD default

/-- The value at a path, unless it is absent or null. -/
def solid? (path : Path) (tree : Value) : Option Value :=
  match tree.lookup path with
  | .present v => some v
  | _ => none

theorem walk?_append (p q : Path) (v : Value) :
    v.walk? (p ++ q) = (v.walk? p).bind (walk? q) := by
  induction p generalizing v with
  | nil => rfl
  | cons name rest ih =>
    cases h : v.entryNamed? name with
    | none => simp [walk?, h]
    | some w => simp [walk?, h, ih]

/-! ### Writing -/

/-- A value where a mapping is wanted: an empty one if it is none. -/
def orEmptyMap : Option Value → Value
  | some (.map es mark) => .map es mark
  | _ => .emptyMap

/-- Writes a value at a path into entries. -/
def setEntries : Path → Value → Entries → Entries
  | [], _, es => es
  | [name], v, es => Entries.insert (.text name) v es
  | name :: rest, v, es =>
    Entries.insert (.text name) ((orEmptyMap (Entries.named? name es)).onMap (setEntries rest v)) es

/-- The tree with a value at a path. What is not a mapping has no paths and stays as it is. -/
def set (path : Path) (tree value : Value) : Value := tree.onMap (setEntries path value)

/-! ### Removing -/

/-- Removes the entry at a path from entries, if it is there. -/
def unsetEntries : Path → Entries → Entries
  | [], es => es
  | [name], es => Entries.erase (.text name) es
  | name :: rest, es => Entries.modifyMap name (unsetEntries rest) es

/-- The tree without the entry at a path. -/
def unset (path : Path) (tree : Value) : Value := tree.onMap (unsetEntries path)

end Value

end ThemeSheet
