import ThemeSheet.Tree.Basic

/-!
# Changing the entries of a tree in place

A change of one entry, or of every mapping among the entries of one, that leaves the place and the
order of all entries as they are.

## Main definitions

* `Entries.mapEach`, a change of every mapping among the values;
* `Entries.modifyMap`, a change of the mapping under a name, if there is one.
-/

namespace ThemeSheet

/-- A change of a value that is a mapping; any other value is left alone. -/
def Value.onMap (f : Entries → Entries) : Value → Value
  | .map es mark => .map (f es) mark
  | v => v

namespace Entries

/-- A change of every mapping among the values. -/
def mapEach (f : Entries → Entries) (es : Entries) : Entries :=
  es.map fun entry => (entry.1, entry.2.onMap f)

/-- A change of the mapping under a name, if there is one. -/
def modifyMap (name : String) (f : Entries → Entries) : Entries → Entries
  | [] => []
  | (k, v) :: rest =>
    if (Key.text name).agrees k then (k, v.onMap f) :: rest else (k, v) :: modifyMap name f rest

end Entries

end ThemeSheet
