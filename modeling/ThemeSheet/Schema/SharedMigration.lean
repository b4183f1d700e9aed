import ThemeSheet.Schema.Migration
import ThemeSheet.Tree.Linked

/-!
# Shared trees of the first version

In a tree with shared collections a setting that moves is seen to move wherever its section stands:
in another section, in the styles, or in a value that no one looks into. So the moves are made one
after the other on the linked tree, and each of them finds the tree as the moves before have left
it. The root of a tree is a mapping of its own, and the version is written there alone.

In a tree without shared collections this is `Migration.run`.

## Main definitions

* `Migration.moveAt`, one move; `Migration.runShared`, the tree brought to the current version.
-/

namespace ThemeSheet.Migration

/-- Moves a setting within its section in the settings at some keys, wherever the section stands. -/
def moveAt (scope : List Key) (t : LinkedTree) (paths : Path × Path) : LinkedTree :=
  match paths with
  | (name :: old, _ :: new) => t.changeAt (scope ++ [.text name]) (rename old new)
  | _ => t

/-- Moves every setting of the first version in the settings at some keys. -/
def moveAll (t : LinkedTree) (scope : List Key) : LinkedTree := renames.foldl (moveAt scope) t

/-- The keys of the settings at the root. -/
def rootKeys : List Key := [.text "settings"]

/-- The keys of the settings of every block. -/
def blockKeys (t : LinkedTree) : List (List Key) :=
  let keys := rootKeys ++ [.text "blocks"]
  (((t.walk? keys t.tree).bind t.entries?).getD []).map fun entry => keys ++ [entry.1]

/-- The tree, perhaps with shared collections, brought to the current version. Its root is not
shared. -/
def runShared (t : LinkedTree) : LinkedTree :=
  if applies t.tree then
    let moved := moveAll t rootKeys
    let moved := (blockKeys moved).foldl moveAll moved
    { moved with tree := moved.tree.onMap (Entries.insert (.text "version") (.int 2)) }
  else t

end ThemeSheet.Migration
