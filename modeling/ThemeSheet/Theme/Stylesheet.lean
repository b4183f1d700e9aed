import ThemeSheet.Preset.Duotone
import ThemeSheet.Preset.Stylesheet
import ThemeSheet.Style.Property
import ThemeSheet.Theme.Basic

/-!
# The stylesheet of a theme

A stylesheet has three sections: the custom properties of the settings, the rules of the styles, and
the utility classes of the presets. Whoever asks for some of them gets those, each once and in this
order. Every section is a list of pieces, made scope by scope; a scope without a selector is passed
over.

The rules of the styles have two peculiarities. A filter is applied to the part of a block that is
declared for it, and not to the block, so its declaration stands in a rule of its own. And around
the rule of the root stand fixed rules, a reset before it and the alignments after it.

## Main definitions

* `StyleSection`, with `ordered` and `ofLegacy`;
* `Theme.variablePieces`, `Theme.stylePieces`, `Theme.presetPieces`, `Theme.stylesheet`;
* `Theme.filters`, the documents of all duotone filters.
-/

namespace ThemeSheet

/-! ### Sections -/

/-- A section of a stylesheet. -/
inductive StyleSection where
  | customProperties
  | styles
  | presets
deriving DecidableEq, Repr

namespace StyleSection

/-- The name of a section. -/
def name : StyleSection → String
  | .customProperties => "variables"
  | .styles => "styles"
  | .presets => "presets"

/-- The sections in the order of the stylesheet. -/
def all : List StyleSection := [.customProperties, .styles, .presets]

/-- The names of the sections in the order of the stylesheet. -/
def allNames : List String := all.map name

/-- The sections that are named, in the order of the stylesheet. -/
def ordered (requested : List String) : List StyleSection :=
  all.filter fun part => requested.contains part.name

/-- The sections of a single name, which is the older way of asking for them. -/
def ofLegacy (request : String) : List StyleSection :=
  if request = "block_styles" then [.styles, .presets]
  else if request = "css_variables" then [.customProperties]
  else all

/-- What is said to whoever asks by a single name. -/
def legacyWarning : String :=
  "Passing a string as 'types' to get_stylesheet() is deprecated; " ++
    "pass a list such as ['variables', 'styles', 'presets'] instead"

end StyleSection

/-! ### Fixed rules -/

/-- The rule before that of the root. -/
def rootReset : String := "body \x7b margin: 0; \x7d"

/-- The rules after that of the root. -/
def alignments : String :=
  ".wp-site-blocks > .alignleft \x7b float: left; margin-right: 2em; \x7d" ++
  ".wp-site-blocks > .alignright \x7b float: right; margin-left: 2em; \x7d" ++
  ".wp-site-blocks > .aligncenter " ++
  "\x7b justify-content: center; margin-left: auto; margin-right: auto; \x7d"

/-- The rules of the flow of blocks, where there is a block gap. -/
def blockGapFlow : String :=
  ".wp-site-blocks > * \x7b margin-top: 0; margin-bottom: 0; \x7d" ++
  ".wp-site-blocks > * + * \x7b margin-top: var( --wp--style--block-gap ); \x7d"

namespace Theme

/-! ### Custom properties -/

/-- The part of the tree that belongs to a scope. -/
def partOf (theme : Theme) (scope : Scope) : Value := theme.tree.getD scope.path .emptyMap

/-- The declarations of the settings of a scope. -/
def variableDeclarations (settings : Value) (origins : List String) :
    Except Refusal (List Declaration) := do
  let presets ← presetDeclarations settings origins
  let custom ← customDeclarations settings
  return presets ++ custom

/-- The custom properties of a scope. -/
def scopeVariables (theme : Theme) (origins : List String) (scope : Scope) :
    Except Refusal (List Piece) :=
  match scope.selector with
  | none => .ok []
  | some selector => do
    let declarations ← variableDeclarations (theme.partOf scope) origins
    return [.rule ⟨selector, declarations⟩]

/-- The section of custom properties. -/
def variablePieces (theme : Theme) (table : BlockTable) (origins : List String) :
    Except Refusal (List Piece) := do
  let groups ← (settingScopes table theme.tree).mapM (theme.scopeVariables origins)
  return groups.flatten

/-! ### Styles -/

/-- Whether the settings have a value for the block gap. -/
def hasBlockGap (theme : Theme) : Bool :=
  (theme.tree.solid? ["settings", "spacing", "blockGap"]).isSome

/-- Whether a declaration applies a filter. -/
def isFilter (d : Declaration) : Bool := decide (d.name = "filter")

/-- The rules of a scope: that of the scope itself, and that of its duotone target. -/
def scopeRules (selector : String) (duotone : Option String) (declarations : List Declaration) :
    List Piece :=
  let filters := declarations.filter isFilter
  .rule ⟨selector, declarations.filter fun d => !isFilter d⟩ ::
    match duotone with
    | some target =>
      if target.isEmpty || filters.isEmpty then []
      else [.rule ⟨Selector.scope selector target, filters⟩]
    | none => []

/-- The pieces of a scope; fixed rules stand around those of the root selector. -/
def scopeStyles (theme : Theme) (scope : Scope) : Except Refusal (List Piece) :=
  match scope.selector with
  | none => .ok []
  | some selector => do
    let declarations ← styleDeclarations (theme.partOf scope) theme.settings
    let rules := scopeRules selector scope.duotone declarations
    if selector = rootSelector then
      return .fixed rootReset :: rules ++ .fixed alignments ::
        if theme.hasBlockGap then [.fixed blockGapFlow] else []
    else return rules

/-- The section of styles. -/
def stylePieces (theme : Theme) (table : BlockTable) : Except Refusal (List Piece) := do
  let groups ← (styleScopes table theme.tree).mapM theme.scopeStyles
  return groups.flatten

/-! ### Utility classes -/

/-- The utility classes of a scope. -/
def scopeClasses (theme : Theme) (origins : List String) (scope : Scope) :
    Except Refusal (List Piece) :=
  match scope.selector with
  | none => .ok []
  | some selector => do
    let rules ← presetRules (theme.partOf scope) selector origins
    return rules.map .rule

/-- The section of utility classes. -/
def presetPieces (theme : Theme) (table : BlockTable) (origins : List String) :
    Except Refusal (List Piece) := do
  let groups ← (settingScopes table theme.tree).mapM (theme.scopeClasses origins)
  return groups.flatten

/-! ### The stylesheet -/

/-- The pieces of a section. -/
def sectionPieces (theme : Theme) (table : BlockTable) (origins : List String) :
    StyleSection → Except Refusal (List Piece)
  | .customProperties => theme.variablePieces table origins
  | .styles => theme.stylePieces table
  | .presets => theme.presetPieces table origins

/-- The text of some sections, in the order given. -/
def stylesheet (theme : Theme) (table : BlockTable) (sections : List StyleSection)
    (origins : List String) : Except Refusal String := do
  let groups ← sections.mapM (theme.sectionPieces table origins)
  return Piece.join groups.flatten

/-! ### Filters -/

/-- The duotone presets of a scope at the named origins, with a slug or without. -/
def duotonePresets (settings : Value) (origins : List String) : List Entries :=
  (Origin.ordered origins).flatMap fun origin =>
    (presetItems settings .duotone origin).filterMap Value.entries?

/-- The documents of the filters of all duotone presets. -/
def filters (theme : Theme) (table : BlockTable) (origins : List String) :
    Except Refusal String := do
  let presets := (settingScopes table theme.tree).flatMap fun scope =>
    duotonePresets (theme.partOf scope) origins
  let documents ← presets.mapM duotoneFilter
  return String.join documents

end Theme

end ThemeSheet
