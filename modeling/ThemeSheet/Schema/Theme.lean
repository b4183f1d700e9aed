import ThemeSheet.Schema.Basic

/-!
# The schema of a theme tree

The settings and the styles of a theme have fixed sections. Every block may have settings and styles
of its own, and every element, at the root and inside a block, may have styles. The names of the
blocks and elements are not fixed: they are given to the schema, and with them a raw tree is pruned
to what a stylesheet can be compiled from.

The block gap is a style of the root alone.

## Main definitions

* `Element`, the elements that can be styled, with their selectors;
* `Schema.theme`, the schema for names of blocks and elements;
* `sanitize`, the pruning of a raw tree.
-/

namespace ThemeSheet

/-! ### Elements -/

/-- The elements that can be styled, as names with selectors. -/
def elements : List (String × String) :=
  [("link", "a"), ("h1", "h1"), ("h2", "h2"), ("h3", "h3"), ("h4", "h4"), ("h5", "h5"),
   ("h6", "h6")]

/-- The names of the elements that can be styled. -/
def elementNames : List String := elements.map (·.1)

namespace Schema

/-! ### Fixed sections -/

/-- The border properties of settings and of styles. -/
def border : Schema := leaves ["color", "radius", "style", "width"]

/-- The settings of the root or of a block. -/
def settings : List (String × Schema) :=
  [("appearanceTools", .any),
   ("border", border),
   ("color", leaves ["background", "custom", "customDuotone", "customGradient", "defaultGradients",
     "defaultPalette", "duotone", "gradients", "link", "palette", "text"]),
   ("custom", .any),
   ("layout", leaves ["contentSize", "wideSize"]),
   ("spacing", leaves ["blockGap", "margin", "padding", "units"]),
   ("typography", leaves ["customFontSize", "dropCap", "fontFamilies", "fontSizes", "fontStyle",
     "fontWeight", "letterSpacing", "lineHeight", "textDecoration", "textTransform"])]

/-- The styles of a scope with the given spacing properties. -/
def stylesWith (spacing : List String) : List (String × Schema) :=
  [("border", border),
   ("color", leaves ["background", "gradient", "text"]),
   ("filter", leaves ["duotone"]),
   ("spacing", leaves spacing),
   ("typography", leaves ["fontFamily", "fontSize", "fontStyle", "fontWeight", "letterSpacing",
     "lineHeight", "textDecoration", "textTransform"])]

/-- The styles of the root, the block gap among them. -/
def rootStyles : List (String × Schema) := stylesWith ["margin", "padding", "blockGap"]

/-- The styles of a block or an element. -/
def innerStyles : List (String × Schema) := stylesWith ["margin", "padding"]

/-! ### Sections of names -/

/-- One schema for every name of a list. -/
def forNames (names : List String) (s : Schema) : Schema :=
  .fields (names.eraseDups.map fun name => (name, s))

/-- The styles of the elements. -/
def elementStyles (elements : List String) : Schema := forNames elements (.fields innerStyles)

/-- The styles of a block. -/
def blockStyles (elements : List String) : Schema :=
  .fields (innerStyles ++ [("elements", elementStyles elements)])

/-- The settings section for names of blocks. -/
def settingsSection (blocks : List String) : List (String × Schema) :=
  settings ++ [("blocks", forNames blocks (.fields settings))]

/-- The styles section for names of blocks and elements. -/
def stylesSection (blocks elements : List String) : List (String × Schema) :=
  rootStyles ++ [("blocks", forNames blocks (blockStyles elements)),
    ("elements", elementStyles elements)]

/-- The two sections that are pruned inside. -/
def theme (blocks elements : List String) : List (String × Schema) :=
  [("styles", .fields (stylesSection blocks elements)),
   ("settings", .fields (settingsSection blocks))]

/-- A whole theme tree: the two sections, and three entries taken as they are. -/
def wholeTheme (blocks elements : List String) : List (String × Schema) :=
  [("customTemplates", .any), ("templateParts", .any), ("version", .any)] ++ theme blocks elements

end Schema

/-- A raw tree pruned to what the schema for names of blocks and elements accepts. Whatever is
unknown or malformed is left out, and what is not a mapping has nothing to keep. -/
def sanitize (blocks elements : List String) (tree : Value) : Entries :=
  Schema.prune (Schema.wholeTheme blocks elements) tree

end ThemeSheet
