import ThemeSheet.Style.Declaration
import ThemeSheet.Text.Chars
import ThemeSheet.Tree.Path

/-!
# Style properties

The styles of a scope are a mapping of sections, and every property of the stylesheet reads its
value at one path of it. The declarations of a scope come in the order of the table of properties,
whatever the order of the tree.

A value that is null, empty, a truth value or a container makes no declaration: zero is a value, and
a group of sides such as `margin` is read by the properties of its sides. The block gap is declared
only if the settings have a value for it.

## Main definitions

* `Property`, `properties`, `Property.gate?`;
* `expandReference`, the writing out of a `var:` reference;
* `styleDeclarations`.
-/

namespace ThemeSheet

/-- A property of the stylesheet with the path of its value in the styles of a scope. -/
structure Property where
  name : String
  path : Path
deriving DecidableEq, Repr

/-- The properties that are read from styles, in the order of their declarations. -/
def properties : List Property :=
  [⟨"background", ["color", "gradient"]⟩,
   ⟨"background-color", ["color", "background"]⟩,
   ⟨"border-radius", ["border", "radius"]⟩,
   ⟨"border-top-left-radius", ["border", "radius", "topLeft"]⟩,
   ⟨"border-top-right-radius", ["border", "radius", "topRight"]⟩,
   ⟨"border-bottom-left-radius", ["border", "radius", "bottomLeft"]⟩,
   ⟨"border-bottom-right-radius", ["border", "radius", "bottomRight"]⟩,
   ⟨"border-color", ["border", "color"]⟩,
   ⟨"border-width", ["border", "width"]⟩,
   ⟨"border-style", ["border", "style"]⟩,
   ⟨"color", ["color", "text"]⟩,
   ⟨"font-family", ["typography", "fontFamily"]⟩,
   ⟨"font-size", ["typography", "fontSize"]⟩,
   ⟨"font-style", ["typography", "fontStyle"]⟩,
   ⟨"font-weight", ["typography", "fontWeight"]⟩,
   ⟨"letter-spacing", ["typography", "letterSpacing"]⟩,
   ⟨"line-height", ["typography", "lineHeight"]⟩,
   ⟨"margin", ["spacing", "margin"]⟩,
   ⟨"margin-top", ["spacing", "margin", "top"]⟩,
   ⟨"margin-right", ["spacing", "margin", "right"]⟩,
   ⟨"margin-bottom", ["spacing", "margin", "bottom"]⟩,
   ⟨"margin-left", ["spacing", "margin", "left"]⟩,
   ⟨"padding", ["spacing", "padding"]⟩,
   ⟨"padding-top", ["spacing", "padding", "top"]⟩,
   ⟨"padding-right", ["spacing", "padding", "right"]⟩,
   ⟨"padding-bottom", ["spacing", "padding", "bottom"]⟩,
   ⟨"padding-left", ["spacing", "padding", "left"]⟩,
   ⟨"--wp--style--block-gap", ["spacing", "blockGap"]⟩,
   ⟨"text-decoration", ["typography", "textDecoration"]⟩,
   ⟨"text-transform", ["typography", "textTransform"]⟩,
   ⟨"filter", ["filter", "duotone"]⟩]

/-- The dotted form of a path. -/
def dotted (path : Path) : String := ".".intercalate path

/-- The setting that must have a value for a property to be declared, for the block gap alone. -/
def Property.gate? (p : Property) : Option Path :=
  if dotted p.path = "spacing.blockGap" then some ["spacing", "blockGap"] else none

/-! ### Values -/

/-- A text that begins with `var:` refers to a custom property, whose name follows with bars between
its parts. -/
def expandReference (s : String) : String :=
  match Text.afterStart? "var:".toList s.toList with
  | some name => "var(--wp--" ++ String.ofList (Text.replaceAll ['|'] ['-', '-'] name) ++ ")"
  | none => s

/-- The value of a property, with a reference written out; the empty text where there is none. -/
def propertyValue (styles : Value) (path : Path) : Value :=
  match styles.getD path (.text "") with
  | .text s => .text (expandReference s)
  | v => v

/-- Whether a value makes no declaration. -/
def isMissing : Value → Bool
  | .null => true
  | .text s => s.isEmpty
  | .bool _ => true
  | .map _ _ => true
  | .list _ _ => true
  | _ => false

/-! ### Declarations -/

/-- Whether the settings allow a property to be declared. -/
def Property.allowed (p : Property) (settings : Value) : Bool :=
  match p.gate? with
  | none => true
  | some path => (settings.solid? path).isSome

/-- The value that a property declares in the styles of a scope, if it declares one. -/
def Property.declared? (p : Property) (styles settings : Value) : Option Value :=
  let v := propertyValue styles p.path
  if p.allowed settings && !isMissing v then some v else none

/-- The declaration of a property in the styles of a scope, if there is one. -/
def Property.declaration? (p : Property) (styles settings : Value) :
    Except Refusal (Option Declaration) :=
  match p.declared? styles settings with
  | none => .ok none
  | some v => do
    let text ← cssText v
    return some ⟨p.name, text⟩

/-- The declarations of the styles of a scope, in the order of a table of properties. -/
def declarationsOf (table : List Property) (styles settings : Value) :
    Except Refusal (List Declaration) := do
  let found ← table.mapM fun p => p.declaration? styles settings
  return found.filterMap id

/-- The declarations of the styles of a scope. -/
def styleDeclarations (styles settings : Value) : Except Refusal (List Declaration) :=
  declarationsOf properties styles settings

end ThemeSheet
