import ThemeSheet.Css.Lexer
import ThemeSheet.Text.Markup
import ThemeSheet.Tree.Basic

/-!
# Safe declarations

A declaration from an untrusted tree may be written into a stylesheet if it cannot do anything but
style. Its property must be one of a fixed list, and its value, read as CSS, may hold no blocks in
square or curly brackets, nothing that is no token and none of four delimiters. Of functions it may
call

* `calc` and `var`, and inside them parentheses;
* gradients, on the properties that take images, but not inside `calc` or `var`;
* color functions, inside a gradient;
* `url`, on the properties that take addresses, but not inside `calc` or `var`, and only with an
  address that is relative or has one of three schemes.

Before it is read, the value loses its line breaks and tabs and the blanks around it. Semicolons,
backslashes and comments are refused outright, and the value is read with a semicolon after it: if
that is not the last token, something in the value has not ended.

## Main definitions

* `Css.safeTokens`, the condition on tokens;
* `Css.isSafeText`, `Css.isSafeDeclaration`;
* `isSafeMarkupText`, `isSafeClassName`, for the names of presets.
-/

namespace ThemeSheet.Css

/-! ### Properties -/

/-- The properties that an untrusted tree may set. -/
def safeProperties : List String :=
  ["background", "background-color", "background-image", "background-position", "background-size",
   "background-repeat", "border", "border-radius", "border-width", "border-color", "border-style",
   "border-right", "border-right-color", "border-right-style", "border-right-width",
   "border-bottom", "border-bottom-color", "border-bottom-style", "border-bottom-width",
   "border-left", "border-left-color", "border-left-style", "border-left-width",
   "border-top", "border-top-color", "border-top-style", "border-top-width",
   "border-top-left-radius", "border-top-right-radius", "border-bottom-left-radius",
   "border-bottom-right-radius", "border-spacing", "border-collapse", "caption-side",
   "columns", "column-count", "column-fill", "column-gap", "column-rule", "column-span",
   "column-width", "color", "filter", "font", "font-family", "font-size", "font-style",
   "font-variant", "font-weight", "letter-spacing", "line-height", "text-align",
   "text-decoration", "text-indent", "text-transform", "height", "min-height", "max-height",
   "width", "min-width", "max-width", "margin", "margin-right", "margin-bottom", "margin-left",
   "margin-top", "padding", "padding-right", "padding-bottom", "padding-left", "padding-top",
   "flex", "flex-basis", "flex-direction", "flex-flow", "flex-grow", "flex-shrink", "gap",
   "row-gap", "grid-template-columns", "grid-auto-flow", "direction", "float",
   "list-style-type", "vertical-align", "--wp--style--block-gap"]

/-- The properties whose values may hold addresses. -/
def urlProperties : List String := ["background", "background-image", "filter"]

/-- The properties whose values may hold gradients. -/
def gradientProperties : List String := ["background", "background-image"]

/-! ### Functions and delimiters -/

/-- The functions in which parentheses may stand. -/
def mathFunctions : List String := ["calc", "var"]

/-- The gradients. -/
def gradientFunctions : List String :=
  ["linear-gradient", "radial-gradient", "conic-gradient", "repeating-linear-gradient",
   "repeating-radial-gradient", "repeating-conic-gradient"]

/-- The functions that name a color. -/
def colorFunctions : List String := ["rgb", "rgba", "hsl", "hsla"]

/-- The delimiters that no value may hold. -/
def unsafeLiterals : List String := ["&", "=", "\\", "\x7d"]

/-- The name of a function with its ASCII capitals made small. -/
def functionName (name : String) : String := String.ofList (Text.lowerAscii name.toList)

/-! ### Addresses -/

/-- The schemes that an address may have. -/
def safeSchemes : List String := ["http", "https", "data"]

/-- Whether the scheme of an address may go on with a character. -/
def isSchemeChar (c : Char) : Bool :=
  c.isAlpha || Text.isAsciiDigit c || c == '+' || c == '.' || c == '-'

/-- The scheme of an address: what stands before the first colon, if it is a scheme. -/
def scheme? (address : List Char) : Option (List Char) :=
  match address with
  | [] => none
  | c :: _ =>
    match address.dropWhile isSchemeChar with
    | ':' :: _ => if c.isAlpha then some (address.takeWhile isSchemeChar) else none
    | _ => none

/-- Whether an address is relative or has a safe scheme, and is not blank. -/
def isSafeUrl (target : String) : Bool :=
  let address := Text.trim target.toList
  if address.isEmpty then false
  else match scheme? address with
    | none => true
    | some scheme => safeSchemes.contains (String.ofList (Text.lowerAscii scheme))

/-- Whether a token only separates others. -/
def Token.isSeparator : Token → Bool
  | .atom .blank => true
  | .atom .comment => true
  | _ => false

/-- The address of a `url` function: the one string among its arguments. -/
def urlTarget? (arguments : List Token) : Option String :=
  match arguments.filter fun t => !t.isSeparator with
  | [.atom (.string s)] => some s
  | _ => none

/-! ### Tokens -/

/-- Whether an address may stand in a value of a property. -/
def urlAllowed (property : String) (inMath : Bool) (target : Option String) : Bool :=
  !inMath && urlProperties.contains property && match target with
    | some address => isSafeUrl address
    | none => false

/-- Whether an atom is safe in a value of a property. -/
def safeAtom (property : String) (inMath : Bool) : Atom → Bool
  | .url target => urlAllowed property inMath (some target)
  | .fault => false
  | .literal s => !unsafeLiterals.contains s
  | _ => true

mutual

/-- Whether a token is safe in a value of a property, inside `calc` or `var` or not and inside a
gradient or not. -/
def safeToken (property : String) (inMath inGradient : Bool) : Token → Bool
  | .atom a => safeAtom property inMath a
  | .block (.bracket kind) content =>
    decide (kind = .round) && inMath && safeTokens property true inGradient content
  | .block (.function f) content =>
    let name := functionName f
    if name = "url" then urlAllowed property inMath (urlTarget? content)
    else if mathFunctions.contains name then safeTokens property true inGradient content
    else if gradientFunctions.contains name && gradientProperties.contains property && !inMath then
      safeTokens property false true content
    else if colorFunctions.contains name && inGradient then safeTokens property inMath true content
    else false

/-- Whether all tokens of a list are safe. -/
def safeTokens (property : String) (inMath inGradient : Bool) : List Token → Bool
  | [] => true
  | t :: ts => safeToken property inMath inGradient t && safeTokens property inMath inGradient ts

end

/-! ### Declarations -/

/-- The tokens before the last one, if that is a semicolon. -/
def beforeSemicolon? (ts : List Token) : Option (List Token) :=
  match ts.reverse with
  | .atom (.literal ";") :: before => some before.reverse
  | _ => none

/-- A value without line breaks and tabs, and without the blanks around it. -/
def stripped (cs : List Char) : List Char :=
  Text.trim (cs.filter fun c => c ≠ '\n' ∧ c ≠ '\r' ∧ c ≠ '\t')

/-- Whether a text is refused before it is read. -/
def refusedOutright (cs : List Char) : Bool :=
  cs.isEmpty || cs.contains ';' || cs.contains '\\' || Text.occursIn ['/', '*'] cs

/-- Whether a text that is written as a value and closed with a semicolon is safe: the semicolon is
read as the last token, and all tokens before it are safe. -/
def isSafeTerminated (property : String) (cs : List Char) : Except Refusal Bool := do
  let ts ← tokens (cs ++ [';'])
  return match beforeSemicolon? ts with
    | some before => safeTokens property false false before
    | none => false

/-- Whether a text is a safe value of a property. -/
def isSafeText (property : String) (cs : List Char) : Except Refusal Bool :=
  if refusedOutright (stripped cs) then .ok false else isSafeTerminated property (stripped cs)

/-- Whether a declaration is safe. -/
def isSafeDeclaration (property : String) (value : Value) : Except Refusal Bool :=
  if safeProperties.contains property then do
    let text ← value.spelling
    isSafeText property text.toList
  else .ok false

end ThemeSheet.Css

namespace ThemeSheet

/-! ### Names of presets -/

/-- Whether a value is a text that markup writes as it is. -/
def isSafeMarkupText : Value → Bool
  | .text s => decide (Text.escapeMarkup s = s)
  | _ => false

/-- Whether a character may stand in a class name. -/
def isClassChar (c : Char) : Bool := c.isAlphanum || c == '_' || c == '-'

/-- Whether a value is a text that is a class name. A line break at its end is overlooked. -/
def isSafeClassName : Value → Bool
  | .text s =>
    let cs := s.toList
    let body := if cs.getLast? = some '\n' then cs.dropLast else cs
    !body.isEmpty && body.all isClassChar
  | _ => false

/-- Whether a declaration may be written: a property and a value. -/
abbrev SafetyCheck := String → Value → Except Refusal Bool

/-- Whether a value passes a check for all of some properties; the first that fails decides. -/
def passesAll (check : SafetyCheck) (value : Value) : List String → Except Refusal Bool
  | [] => .ok true
  | property :: rest => do
    let passed ← check property value
    if passed then passesAll check value rest else return false

/-- Whether a preset is safe: its name needs no escape in markup, its slug is a class name, and its
value passes a check for every property it is meant for. -/
def isSafePreset (check : SafetyCheck) (targets : List String) (preset : Entries) (value : Value) :
    Except Refusal Bool :=
  if isSafeMarkupText ((Entries.named? "name" preset).getD .null) &&
      isSafeClassName ((Entries.named? "slug" preset).getD .null) then
    passesAll check value targets
  else .ok false

end ThemeSheet
