import ThemeSheet.Css.Color
import ThemeSheet.Preset.Category

/-!
# Duotone filters

A duotone filter maps the luminance of an image onto a gradient between the colors of its preset. It
is written as a hidden SVG document: a fixed skeleton in which the name of the filter and four
tables of numbers, one for each channel, depend on the preset. A color that is not understood is
left out of all four tables, so they always have the same length.

## Main definitions

* `colorChannels`, the channels of a color in the range from 0 to 255;
* `DuotoneTables`, `duotoneTables`, `duotoneFilter`.
-/

namespace ThemeSheet

/-- The channels of a color: red, green and blue from 0 to 255, and alpha from 0 to 1. -/
structure Channels where
  red : Binary64
  green : Binary64
  blue : Binary64
  alpha : Binary64
deriving DecidableEq, Repr

namespace Channels

/-- The channels of a color. -/
def ofColor (c : Css.Color) : Channels :=
  let steps := Binary64.ofNat 255
  ⟨c.red.mul steps, c.green.mul steps, c.blue.mul steps, c.alpha⟩

/-- The channels in order. -/
def toList (c : Channels) : List Binary64 := [c.red, c.green, c.blue, c.alpha]

/-- The channels as fractions of one. -/
def fractions (c : Channels) : Channels :=
  ⟨c.red.divNat 255, c.green.divNat 255, c.blue.divNat 255, c.alpha⟩

end Channels

/-- The channels of a value, if it is a text that is a color. -/
def colorChannels (v : Value) : Except Refusal (Option Channels) :=
  match v with
  | .text s => do
    let color ← Css.parseColor s
    return color.map Channels.ofColor
  | _ => .ok none

/-- The tables of a filter: a list of numbers for each channel. -/
structure DuotoneTables where
  red : List Binary64
  green : List Binary64
  blue : List Binary64
  alpha : List Binary64
deriving DecidableEq, Repr

/-- The tables of a list of colors. -/
def DuotoneTables.ofChannels (colors : List Channels) : DuotoneTables :=
  let fractions := colors.map Channels.fractions
  ⟨fractions.map (·.red), fractions.map (·.green), fractions.map (·.blue), fractions.map (·.alpha)⟩

/-- The tables of a preset; colors that are not understood are left out. -/
def duotoneTables (preset : Entries) : Except Refusal DuotoneTables := do
  let colors := ((Entries.named? "colors" preset).bind Value.items?).getD []
  let found ← colors.mapM colorChannels
  return .ofChannels (found.filterMap id)

/-- The function that applies the table of a channel. -/
def transferFunction (channel : String) (table : List Binary64) : String :=
  "<feFunc" ++ channel ++ " type=\"table\" tableValues=\"" ++
    " ".intercalate (table.map Decimal.textSix) ++ "\" />"

/-- The matrix that takes the luminance of a pixel into every channel. -/
def luminanceMatrix : String :=
  " .299 .587 .114 0 0 .299 .587 .114 0 0 .299 .587 .114 0 0 .299 .587 .114 0 0 "

/-- The document up to the name of the filter. -/
def filterHead : String :=
  "<svg xmlns=\"http://www.w3.org/2000/svg\" viewBox=\"0 0 0 0\" width=\"0\" height=\"0\" " ++
  "focusable=\"false\" role=\"none\" " ++
  "style=\"visibility: hidden; position: absolute; left: -9999px; overflow: hidden;\">" ++
  "<defs><filter id=\""

/-- The document between the name of the filter and its tables. -/
def filterMiddle : String :=
  "\"><feColorMatrix color-interpolation-filters=\"sRGB\" type=\"matrix\" values=\"" ++
  luminanceMatrix ++ "\" /><feComponentTransfer color-interpolation-filters=\"sRGB\" >"

/-- The document after the tables. -/
def filterTail : String :=
  "</feComponentTransfer><feComposite in2=\"SourceGraphic\" operator=\"in\" />" ++
    "</filter></defs></svg>"

/-- The functions of the four tables. -/
def DuotoneTables.text (t : DuotoneTables) : String :=
  transferFunction "R" t.red ++ transferFunction "G" t.green ++ transferFunction "B" t.blue ++
    transferFunction "A" t.alpha

/-- The document of the filter of a preset. -/
def duotoneFilter (preset : Entries) : Except Refusal String := do
  let tables ← duotoneTables preset
  let name ← duotoneId preset
  return filterHead ++ Text.escapeMarkup name ++ filterMiddle ++ tables.text ++ filterTail

end ThemeSheet
