import ThemeSheet.Tree.Path

/-!
# Appearance tools

The flag `appearanceTools` turns on nine settings at once. It turns on only those that the tree does
not set: a setting that is there keeps its value, null included, and a section that is not a mapping
is left alone. The flag itself is then removed. The root and every block are treated alike and
independently, and only the truth value counts as the flag, not the number one.

## Main definitions

* `OptIn.paths`, `OptIn.expandSettings`, `OptIn.expand`.
-/

namespace ThemeSheet.OptIn

/-- The settings that the flag turns on. -/
def paths : List Path :=
  [["border", "color"], ["border", "radius"], ["border", "style"], ["border", "width"],
   ["color", "link"], ["spacing", "blockGap"], ["spacing", "margin"], ["spacing", "padding"],
   ["typography", "lineHeight"]]

/-- Whether a section is missing or a mapping, so that a setting can be written into it. -/
def sectionOpen (path : Path) (settings : Entries) : Bool :=
  match path with
  | [] => false
  | name :: _ =>
    match Entries.named? name settings with
    | none => true
    | some v => v.isMap

/-- Turns on one setting, if it is absent and its section is open. -/
def turnOn (settings : Entries) (path : Path) : Entries :=
  if sectionOpen path settings && (Value.lookup path (.map settings)).isAbsent then
    Value.setEntries path (.bool true) settings
  else settings

/-- Whether the settings hold the flag. -/
def flagged (settings : Entries) : Bool :=
  match Entries.named? "appearanceTools" settings with
  | some (.bool b) => b
  | _ => false

/-- Turns on the settings and removes the flag, if the flag is there. -/
def expandSettings (settings : Entries) : Entries :=
  if flagged settings then
    Entries.erase (.text "appearanceTools") (paths.foldl turnOn settings)
  else settings

/-- Expands the flag in the settings of the root and of every block. -/
def expand (tree : Entries) : Entries :=
  Entries.modifyMap "settings"
    (fun settings => Entries.modifyMap "blocks" (Entries.mapEach expandSettings)
      (expandSettings settings)) tree

end ThemeSheet.OptIn
