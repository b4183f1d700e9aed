import ThemeSheet.Preset.Collection
import ThemeSheet.Schema.Migration
import ThemeSheet.Schema.OptIn

/-!
# Compiled themes

A theme is a tree of one origin that has been made ready: brought to the current version, pruned to
the schema, its appearance tools turned on, and its collections of presets keyed by the origin. A
tree that has been compiled once is not changed by being compiled again.

## Main definitions

* `Theme`, `Theme.compile`, `Theme.settings`.
-/

namespace ThemeSheet

/-- A compiled tree and where it comes from. -/
structure Theme where
  origin : Origin
  tree : Value
deriving Repr

namespace Theme

/-- The tree of a raw value: current, pruned to the names of blocks, and expanded. -/
def prepare (blocks : List String) (raw : Value) : Value :=
  .map (OptIn.expand (sanitize blocks elementNames (Migration.run raw)))

/-- The compiled tree of a raw value. -/
def compileTree (blocks : List String) (origin : Origin) (raw : Value) : Value :=
  let tree := prepare blocks raw
  keyByOrigin (settingScopes [] tree) origin.name tree

/-- The theme of a raw value, with the names of the blocks that are known. -/
def compile (blocks : List String) (origin : Origin) (raw : Value) : Theme :=
  ⟨origin, compileTree blocks origin raw⟩

/-- The settings, or an empty mapping. -/
def settings (theme : Theme) : Value :=
  match theme.tree.entryNamed? "settings" with
  | some (.map es _) => .map es
  | _ => .emptyMap

end Theme

end ThemeSheet
