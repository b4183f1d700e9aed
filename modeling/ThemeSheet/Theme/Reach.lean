import ThemeSheet.Theme.Stylesheet
import ThemeSheet.Tree.Reach

/-!
# How far a theme looks into its tree

A theme looks into the settings and the styles, into the blocks and elements in them, and into the
sections of each of these. Of the collections of presets it looks at the entries of every preset,
and of the templates at what they declare. All the rest stays folded when a theme is compiled or
merged, because nobody may ever ask for it.

Whoever asks for something looks further, and writes out what the answer is made of: the stylesheet
the slugs and the values of presets and the leaves of the custom settings, as far as its sections
show them; the filters the slugs of presets; the cleaning of a tree both, but no custom settings.

## Main definitions

* `Theme.reach`, and `Theme.listReach` for a list of presets;
* `Theme.stylesheetReach`, `Theme.filterReach`, `Theme.cleaningReach`, `Theme.settingsReach`;
* `Theme.readThrough`, the reading of a theme for a reach.
-/

namespace ThemeSheet.Theme

/-! ### Shapes

What becomes of all that is not looked into is said by a reach, too. -/

/-- How far a collection of presets is looked into, bare or keyed by origin, with how far each
preset is. -/
def collectionReach (rest preset : Reach) : Reach :=
  .into preset (Origin.allNames.map (·, .items rest preset)) rest

/-- How far the sections of a scope that hold presets are looked into, with how far each preset
is. -/
def presetSections (rest preset : Reach) : List (String × Reach) :=
  let collections := fun names : List String => names.map (·, collectionReach rest preset)
  [("color", .named rest (collections ["duotone", "gradients", "palette"])),
   ("typography", .named rest (collections ["fontFamilies", "fontSizes"]))]

/-- How far the root and the blocks of a part of the tree are looked into, with how far the sections
of each scope are. -/
def scopesReach (rest : Reach) (sections : List (String × Reach)) : Reach :=
  .named rest (("blocks", .entries rest (.named rest sections)) :: sections)

/-! ### What is compiled and merged -/

/-- How far an item of a list is looked into: its entries are looked at. -/
def itemReach : Reach := .entries .folded .folded

/-- How far a list of items is looked into. -/
def listReach : Reach := .items .folded itemReach

/-- How far the sections of a scope are looked into. -/
def sectionReach : List (String × Reach) :=
  ["border", "filter", "layout", "spacing"].map (·, itemReach) ++ presetSections .folded itemReach

/-- How far the elements of a scope are looked into. -/
def elementReach : Reach := .entries .folded (.named .folded sectionReach)

/-- How far a theme looks into its tree. -/
def reach : Reach :=
  let scopes := scopesReach .folded (("elements", elementReach) :: sectionReach)
  .named .folded [("settings", scopes), ("styles", scopes), ("customTemplates", listReach),
    ("templateParts", listReach)]

/-! ### What is asked for -/

/-- The settings of every scope are looked into, and nothing else is. -/
def inSettings (sections : List (String × Reach)) : Reach :=
  .named .unseen [("settings", scopesReach .unseen sections)]

/-- Presets of which some entries are taken as a whole. -/
def presetsWith (names : List String) : List (String × Reach) :=
  presetSections .unseen (.named .unseen (names.map (·, .whole)))

/-- The entries that the value of a preset may be in. -/
def valueNames : List String := ["color", "gradient", "size", "fontFamily"]

/-- How far the sections of a stylesheet look into a tree. -/
def stylesheetReach (sections : List StyleSection) : Reach :=
  if sections.contains .customProperties then
    inSettings (("custom", .entries .unseen .leaves) :: presetsWith ("slug" :: valueNames))
  else if sections.contains .presets then inSettings (presetsWith ["slug"])
  else .unseen

/-- How far the duotone filters look into a tree. -/
def filterReach : Reach := inSettings (presetsWith ["slug"])

/-- How far the cleaning of a tree looks into it. -/
def cleaningReach : Reach := inSettings (presetsWith ("slug" :: valueNames))

/-- How far a text of the settings looks into a tree. -/
def settingsReach : Reach := .named .unseen [("settings", .whole)]

/-- What a step makes of a theme that is written out for a reach. -/
def readThrough {ε α : Type} (reach : Reach) (step : Theme → Except ε α) (theme : Theme) :
    Except ε α :=
  theme.tree.readThrough reach fun tree => step { theme with tree }

end ThemeSheet.Theme
