import ThemeSheet.Tree.Path

/-!
# Trees of the first version

The first version of the theme schema had flags of its own for four settings. A tree whose version
is the integer one is brought to the second version: each flag that holds a value moves to the
setting it stands for, in the settings of the root and of every block, and the version becomes two.
Every other tree is current and stays as it is; `true` and `1.0` are not the version one.

## Main definitions

* `Migration.renames`, `Migration.applies`, `Migration.run`.
-/

namespace ThemeSheet.Migration

/-- The settings of the first version, each with the setting that took its place. -/
def renames : List (Path × Path) :=
  [(["border", "customRadius"], ["border", "radius"]),
   (["spacing", "customMargin"], ["spacing", "margin"]),
   (["spacing", "customPadding"], ["spacing", "padding"]),
   (["typography", "customLineHeight"], ["typography", "lineHeight"])]

/-- Moves the value at one path to another, unless it is absent or null. -/
def rename (old new : Path) (settings : Entries) : Entries :=
  match Value.solid? old (.map settings) with
  | some v => Value.unsetEntries old (Value.setEntries new v settings)
  | none => settings

/-- Moves every setting of the first version. -/
def renameAll (settings : Entries) : Entries :=
  renames.foldl (fun es paths => rename paths.1 paths.2 es) settings

/-- Moves the settings of the root, and then those of every block. -/
def renameSettings (settings : Entries) : Entries :=
  Entries.modifyMap "blocks" (Entries.mapEach renameAll) (renameAll settings)

/-- Whether a tree is of the first version. -/
def applies (tree : Value) : Bool :=
  match tree.entryNamed? "version" with
  | some (.int n) => decide (n = 1)
  | _ => false

/-- The tree brought to the current version. -/
def run (tree : Value) : Value :=
  if applies tree then
    tree.onMap fun es =>
      Entries.insert (.text "version") (.int 2) (Entries.modifyMap "settings" renameSettings es)
  else tree

end ThemeSheet.Migration
