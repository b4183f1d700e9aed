import ThemeSheet.Preset.Origin
import ThemeSheet.Style.Declaration
import ThemeSheet.Text.Chars
import ThemeSheet.Text.Markup
import ThemeSheet.Tree.Path

/-!
# Categories of presets

Presets give names to the values of a design: colors, gradients, duotone filters, font sizes and
font families. A category says where its presets are found among the settings, which value a preset
stands for, what the custom property of that value is called, which utility classes use it and for
which style properties it is meant.

In a compiled tree every collection of presets is a mapping from origins to lists.

## Main definitions

* `Category` and its parts, `Category.value?`;
* `fillSlug`, the writing of a slug into a template;
* `duotoneId`, the name of the filter of a duotone preset.
-/

namespace ThemeSheet

/-- The kinds of presets, in the order in which they are compiled. -/
inductive Category where
  | palette
  | gradients
  | duotone
  | fontSizes
  | fontFamilies
deriving DecidableEq, Repr

/-! ### Templates -/

/-- What stands for the slug in a template. -/
def slugPlaceholder : String := "$slug"

/-- A template with a slug in the place of its placeholder. -/
def fillSlug (template slug : String) : String :=
  String.ofList (Text.replaceAll slugPlaceholder.toList slug.toList template.toList)

/-! ### Duotone filters -/

/-- The name of the filter of a duotone preset. -/
def duotoneId (preset : Entries) : Except Refusal String := do
  let slug ← ((Entries.named? "slug" preset).getD (.text "")).spelling
  return "wp-duotone-" ++ slug

/-- The style value that applies the filter of a duotone preset. -/
def duotoneReference (preset : Entries) : Except Refusal String := do
  let name ← duotoneId preset
  return "url('#" ++ Text.escapeMarkup name ++ "')"

/-! ### Parts of a category -/

/-- Whether the presets of a theme may take the place of default ones of the same slug. -/
inductive Override where
  /-- They always may. -/
  | always
  /-- They may unless the setting at a path asks for the defaults. -/
  | unless (path : Path)
deriving DecidableEq, Repr

namespace Category

/-- The categories in the order in which they are compiled. -/
def all : List Category := [.palette, .gradients, .duotone, .fontSizes, .fontFamilies]

theorem mem_all (category : Category) : category ∈ all := by
  cases category <;> decide

/-- Where the presets are found among the settings. -/
def path : Category → Path
  | .palette => ["color", "palette"]
  | .gradients => ["color", "gradients"]
  | .duotone => ["color", "duotone"]
  | .fontSizes => ["typography", "fontSizes"]
  | .fontFamilies => ["typography", "fontFamilies"]

/-- Whether theme presets may take the place of default ones. -/
def override : Category → Override
  | .palette => .unless ["color", "defaultPalette"]
  | .gradients => .unless ["color", "defaultGradients"]
  | _ => .always

/-- Whether a theme preset without a name takes that of the default preset of its slug. -/
def inheritsNames : Category → Bool
  | .fontSizes => true
  | _ => false

/-- The key of a preset's value; a duotone preset has none, its value follows from its slug. -/
def valueKey? : Category → Option String
  | .palette => some "color"
  | .gradients => some "gradient"
  | .duotone => none
  | .fontSizes => some "size"
  | .fontFamilies => some "fontFamily"

/-- The template of the custom property. -/
def customProperty : Category → String
  | .palette => "--wp--preset--color--$slug"
  | .gradients => "--wp--preset--gradient--$slug"
  | .duotone => "--wp--preset--duotone--$slug"
  | .fontSizes => "--wp--preset--font-size--$slug"
  | .fontFamilies => "--wp--preset--font-family--$slug"

/-- The templates of the utility classes, each with the property it sets. -/
def classes : Category → List (String × String)
  | .palette => [(".has-$slug-color", "color"),
      (".has-$slug-background-color", "background-color"),
      (".has-$slug-border-color", "border-color")]
  | .gradients => [(".has-$slug-gradient-background", "background")]
  | .duotone => []
  | .fontSizes => [(".has-$slug-font-size", "font-size")]
  | .fontFamilies => [(".has-$slug-font-family", "font-family")]

/-- The style properties that the value of a preset is meant for. -/
def targets : Category → List String
  | .palette => ["color", "background-color", "border-color"]
  | .gradients => ["background"]
  | .duotone => ["filter"]
  | .fontSizes => ["font-size"]
  | .fontFamilies => ["font-family"]

/-- The value of a preset; null if it has none. -/
def value (category : Category) (preset : Entries) : Except Refusal Value :=
  match category.valueKey? with
  | some key => .ok ((Entries.named? key preset).getD .null)
  | none => do
    let reference ← duotoneReference preset
    return .text reference

end Category

end ThemeSheet
