import ThemeSheet.Preset.Ordered
import ThemeSheet.Theme.Basic

/-!
# Templates that a theme declares

A theme lists page templates and parts of templates. An item counts if it is a mapping with a name
that is a text; its other entries are read one by one, and one that is missing or of the wrong kind
has its default. The last item of a name decides.

## Main definitions

* `CustomTemplate`, `TemplatePart`, `Theme.customTemplates`, `Theme.templateParts`.
-/

namespace ThemeSheet

/-- A page template. -/
structure CustomTemplate where
  title : String
  postTypes : List String
deriving DecidableEq, Repr

/-- A part of a template. -/
structure TemplatePart where
  title : String
  area : String
deriving DecidableEq, Repr

/-- The text under a name, or the empty one. -/
def textOrEmpty (name : String) (item : Entries) : String :=
  ((Entries.named? name item).bind Value.text?).getD ""

/-- The texts of a value, if it is a list of texts. -/
def Value.texts? (v : Value) : Option (List String) :=
  v.items?.bind fun items => items.mapM Value.text?

namespace CustomTemplate

/-- The template that an item declares. Without types it is for pages. -/
def ofItem (item : Entries) : CustomTemplate :=
  { title := textOrEmpty "title" item
    postTypes := ((Entries.named? "postTypes" item).bind Value.texts?).getD ["page"] }

end CustomTemplate

namespace TemplatePart

/-- The part that an item declares. -/
def ofItem (item : Entries) : TemplatePart := ⟨textOrEmpty "title" item, textOrEmpty "area" item⟩

end TemplatePart

namespace Theme

/-- The named items of a list at the root of the tree. -/
def namedItems (theme : Theme) (list : String) : List (String × Entries) :=
  (((theme.tree.entryNamed? list).bind Value.items?).getD []).filterMap fun item =>
    match item with
    | .map es _ => ((Entries.named? "name" es).bind Value.text?).map fun name => (name, es)
    | _ => none

/-- The page templates by name. -/
def customTemplates (theme : Theme) : List (String × CustomTemplate) :=
  Named.putAll [] ((theme.namedItems "customTemplates").map fun item =>
    (item.1, .ofItem item.2))

/-- The parts of templates by name. -/
def templateParts (theme : Theme) : List (String × TemplatePart) :=
  Named.putAll [] ((theme.namedItems "templateParts").map fun item => (item.1, .ofItem item.2))

end Theme

end ThemeSheet
