import ThemeSheet.Css.ColorName
import ThemeSheet.Css.Lexer

/-!
# Colors

A text is a color if it is one token, blanks and comments apart: a name, a hash of three, four, six
or eight hexadecimal digits, or one of the functions `rgb`, `rgba`, `hsl` and `hsla` with arguments
between commas. Channels are fractions of one, and may lie outside the range from zero to one.

The integers of `rgb` are divided as the integers they are. The quotient of an integer too large has
no binary64 number, and then the text is refused. A hue is a binary64 number from the start; one too
large has no place on the circle of hues, and then its channels are the least.

## Main definitions

* `Css.Color`, `Css.parseColor`; `Css.hslToRgb`.
-/

namespace ThemeSheet.Css

/-- A color by the fractions of its channels. -/
structure Color where
  red : Binary64
  green : Binary64
  blue : Binary64
  alpha : Binary64
deriving DecidableEq, Repr

/-! ### Channels -/

/-- The number one. -/
def one : Binary64 := .ofNat 1

/-- The number zero. -/
def zero : Binary64 := .ofNat 0

/-- The quotient of an integer by a positive number, unless it is too large. -/
def quotient (n : Int) (d : Nat) : Except Refusal Binary64 :=
  match Binary64.ofRatio (decide (n < 0)) n.natAbs d with
  | .infinite _ => .error .channelTooLarge
  | x => .ok x

/-- The number itself, or the nearer end of the range from zero to one. -/
def clipped (x : Binary64) : Binary64 :=
  let low := if zero.lt x then x else zero
  if low.lt one then low else one

/-! ### Hue, saturation and lightness -/

/-- A third, as a binary64 number. -/
def third : Binary64 := .ofRatio false 1 3

/-- A sixth. -/
def sixth : Binary64 := .ofRatio false 1 6

/-- Two thirds. -/
def twoThirds : Binary64 := .ofRatio false 2 3

/-- A half. -/
def half : Binary64 := .ofRatio false 1 2

/-- A channel by its place on the circle of hues, between the least and the greatest channel. -/
def hueChannel (least greatest hue : Binary64) : Binary64 :=
  let h := hue.fraction
  if h.lt sixth then
    least.add (((greatest.sub least).mul h).mul (.ofNat 6))
  else if h.lt half then greatest
  else if h.lt twoThirds then
    least.add (((greatest.sub least).mul (twoThirds.sub h)).mul (.ofNat 6))
  else least

/-- The red, green and blue of a hue, a saturation and a lightness. -/
def hslToRgb (h s l : Binary64) : Binary64 × Binary64 × Binary64 :=
  if s.isZero then (l, l, l)
  else
    let greatest := if half.lt l || l.isNan then (l.add s).sub (l.mul s) else l.mul (one.add s)
    let least := ((Binary64.ofNat 2).mul l).sub greatest
    (hueChannel least greatest (h.add third), hueChannel least greatest h,
      hueChannel least greatest (h.sub third))

/-! ### Functions -/

/-- The arguments of a function: single tokens with commas between them. -/
def commaSeparated? (content : List Token) : Option (List Atom) :=
  let significant := content.filter fun t => match t with
    | .atom .blank => false
    | .atom .comment => false
    | _ => true
  let rec split : List Token → Option (List Atom)
    | [.atom a] => some [a]
    | .atom a :: .atom (.literal ",") :: rest => (split rest).map (a :: ·)
    | _ => none
  if significant.isEmpty then some [] else split significant

/-- Red, green and blue from three integers or three percentages. -/
def rgb (arguments : List Atom) (alpha : Binary64) : Except Refusal (Option Color) :=
  match arguments with
  | [.number r, .number g, .number b] =>
    match r.integer, g.integer, b.integer with
    | some r, some g, some b => do
      let red ← quotient r 255
      let green ← quotient g 255
      let blue ← quotient b 255
      return some ⟨red, green, blue, alpha⟩
    | _, _, _ => .ok none
  | [.percentage r, .percentage g, .percentage b] =>
    .ok (some ⟨r.value.divNat 100, g.value.divNat 100, b.value.divNat 100, alpha⟩)
  | _ => .ok none

/-- Hue, saturation and lightness from a number of degrees and two percentages. -/
def hsl? (arguments : List Atom) (alpha : Binary64) : Option Color :=
  match arguments with
  | [.number h, .percentage s, .percentage l] =>
    let (red, green, blue) :=
      hslToRgb (h.value.divNat 360) (s.value.divNat 100) (l.value.divNat 100)
    some ⟨red, green, blue, alpha⟩
  | _ => none

/-- The alpha channel from what follows the first three arguments: one number. -/
def alpha? (arguments : List Atom) : Option Binary64 :=
  match arguments.drop 3 with
  | [.number n] => some (clipped n.value)
  | _ => none

/-- The color of a function. -/
def functionColor (name : String) (content : List Token) : Except Refusal (Option Color) :=
  match commaSeparated? content with
  | none => .ok none
  | some arguments =>
    let withAlpha := fun (read : List Atom → Binary64 → Except Refusal (Option Color)) =>
      match alpha? arguments with
      | some alpha => read (arguments.take 3) alpha
      | none => .ok none
    if name = "rgb" then rgb arguments one
    else if name = "rgba" then withAlpha rgb
    else if name = "hsl" then .ok (hsl? arguments one)
    else if name = "hsla" then withAlpha fun channels alpha => .ok (hsl? channels alpha)
    else .ok none

/-! ### Hashes -/

/-- The value of a hexadecimal digit of a hash. -/
def hashDigit? (c : Char) : Option Nat := if isHex c then some (hexValue c) else none

/-- The numbers of a list in pairs, each pair as one number of two hexadecimal digits. -/
def pairs : List Nat → List Nat
  | a :: b :: rest => (a * 16 + b) :: pairs rest
  | _ => []

/-- The color of four channels in steps of `1 / 255`, of which the last may be missing. -/
def ofSteps : List Nat → Option Color
  | [r, g, b] => some ⟨.ofRatio false r 255, .ofRatio false g 255, .ofRatio false b 255, one⟩
  | [r, g, b, a] => some ⟨.ofRatio false r 255, .ofRatio false g 255, .ofRatio false b 255,
      .ofRatio false a 255⟩
  | _ => none

/-- The color of a hash. A line break at its end is overlooked. -/
def hashColor (name : String) : Option Color :=
  let cs := name.toList
  let body := if cs.getLast? = some '\n' then cs.dropLast else cs
  match body.mapM hashDigit? with
  | none => none
  | some ds =>
    if ds.length = 3 ∨ ds.length = 4 then ofSteps (ds.map (· * 17))
    else if ds.length = 6 ∨ ds.length = 8 then ofSteps (pairs ds)
    else none

/-! ### Colors -/

/-- The color of a name. -/
def namedColor (name : String) : Option Color :=
  let small := String.ofList (Text.lowerAscii name.toList)
  if small = "transparent" then some ⟨zero, zero, zero, zero⟩
  else (colorNames.lookup small).bind fun (r, g, b) => ofSteps [r, g, b]

/-- The color of a token. -/
def tokenColor : Token → Except Refusal (Option Color)
  | .atom (.ident name) => .ok (namedColor name)
  | .atom (.hash name) => .ok (hashColor name)
  | .block (.function name) content =>
    functionColor (String.ofList (Text.lowerAscii name.toList)) content
  | _ => .ok none

/-- The color of a text: that of its only token. -/
def parseColor (s : String) : Except Refusal (Option Color) := do
  let ts ← tokens s.toList
  match ts.filter fun t => match t with
    | .atom .blank => false
    | .atom .comment => false
    | _ => true with
  | [t] => tokenColor t
  | _ => return none

end ThemeSheet.Css
