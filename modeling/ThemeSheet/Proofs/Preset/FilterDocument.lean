import ThemeSheet.Preset.Duotone
import ThemeSheet.Proofs.Number.Numerals
import ThemeSheet.Proofs.Results
import ThemeSheet.Proofs.Text.Joining
import ThemeSheet.Proofs.Text.Markup
import ThemeSheet.Proofs.Tree.Decidable

/-!
# The document of a filter

The document of a duotone preset is a frame of fixed markup with five places: one for the name of
the filter and one for each of the four tables. All places are attributes, and whatever the preset
is, what is filled in has no quotes and no brackets. So a preset cannot alter the frame.

The tables are filled color by color. A color that is not understood is left out of all of them, so
their numbers stay side by side: the numbers at one place of the four tables are the channels of one
color.

## Main definitions

* `Filling`, what is filled in, and `Filling.document`, the fixed markup around it;
* `acceptedColors`, the channels of the colors that are understood;
* `tableEntries` and `HoldsNumbers`, the content of a table;
* `Filling.IsOf`, what is filled in for a preset.

## Main results

* `holdsNumbers_intercalate`: numbers with blanks between them are read back;
* `exists_filling`: what depends on the preset.
-/

namespace ThemeSheet

variable {preset : Entries} {numbers : List Binary64}

/-! ### The frame -/

/-- What is filled into the frame of a document: the name of its filter and the contents of its
tables. -/
structure Filling where
  name : String
  red : String
  green : String
  blue : String
  alpha : String

/-- The markup of a table around its content. -/
def tableFrame (channel content : String) : String :=
  "<feFunc" ++ channel ++ " type=\"table\" tableValues=\"" ++ content ++ "\" />"

/-- The markup of the document around what is filled in. -/
def Filling.document (f : Filling) : String :=
  filterHead ++ f.name ++ filterMiddle ++ tableFrame "R" f.red ++ tableFrame "G" f.green ++
    tableFrame "B" f.blue ++ tableFrame "A" f.alpha ++ filterTail

/-! ### Tables -/

/-- What stands in a table between its blanks. -/
def tableEntries (content : String) : List String :=
  ((content.toList.splitOn ' ').filter (· ≠ [])).map String.ofList

/-- A table has the texts of given numbers with single blanks between them, and nothing else. -/
structure HoldsNumbers (content : String) (numbers : List Binary64) : Prop where
  written : content = " ".intercalate (numbers.map Decimal.textSix)
  entries : tableEntries content = numbers.map Decimal.textSix
  numeral : ∀ entry ∈ tableEntries content, Decimal.IsNumeral entry.toList
  plain : ∀ c ∈ content.toList, c = ' ' ∨ Decimal.isNumeralChar c = true

/-- No blank stands in a numeral. -/
theorem blank_not_mem_textSix (x : Binary64) : ' ' ∉ (Decimal.textSix x).toList := fun hmem => by
  have hchar := (Decimal.isNumeral_textSix x).isNumeralChar ' ' hmem
  revert hchar
  decide

/-- What is read of numbers with blanks between them. -/
theorem tableEntries_intercalate (numbers : List Binary64) :
    tableEntries (" ".intercalate (numbers.map Decimal.textSix)) =
      numbers.map Decimal.textSix := by
  cases numbers with
  | nil => decide
  | cons x numbers =>
    have hblank : ∀ part ∈ ((x :: numbers).map Decimal.textSix).map String.toList, ' ' ∉ part := by
      simp only [List.map_map, List.forall_mem_map]
      exact fun y _ => blank_not_mem_textSix y
    have hne : ∀ part ∈ ((x :: numbers).map Decimal.textSix).map String.toList,
        decide (part ≠ []) = true := by
      simp only [List.map_map, List.forall_mem_map, decide_eq_true_eq]
      exact fun y _ => (Decimal.isNumeral_textSix y).ne_nil
    have hsep : " ".toList = [' '] := by decide
    rw [tableEntries, String.toList_intercalate, hsep, List.splitOn_intercalate ' ' hblank (by simp),
      List.filter_eq_self.mpr hne, List.map_map]
    simp [Function.comp_def]

/-- **Numbers with blanks between them are read back.** -/
theorem holdsNumbers_intercalate (numbers : List Binary64) :
    HoldsNumbers (" ".intercalate (numbers.map Decimal.textSix)) numbers where
  written := rfl
  entries := tableEntries_intercalate numbers
  numeral := by
    rw [tableEntries_intercalate, List.forall_mem_map]
    exact fun x _ => Decimal.isNumeral_textSix x
  plain := by
    intro c hc
    rw [Text.toList_intercalate] at hc
    rcases Text.mem_joinWith hc with hsep | ⟨part, hpart, hc⟩
    · have hblank : " ".toList = [' '] := by decide
      exact .inl (List.mem_singleton.mp (hblank ▸ hsep))
    · obtain ⟨text, htext, rfl⟩ := List.mem_map.mp hpart
      obtain ⟨x, -, rfl⟩ := List.mem_map.mp htext
      exact .inr ((Decimal.isNumeral_textSix x).isNumeralChar c hc)

theorem HoldsNumbers.length {content : String} (h : HoldsNumbers content numbers) :
    (tableEntries content).length = numbers.length := by
  rw [h.entries, List.length_map]

/-! ### Colors -/

/-- The channels of a value that is understood as a color, as fractions of one. -/
def acceptedColor? (v : Value) : Option Channels :=
  match colorChannels v with
  | .ok channels => channels.map Channels.fractions
  | .error _ => none

/-- The colors of a preset: the items of a list. -/
def presetColors (preset : Entries) : List Value :=
  ((Entries.named? "colors" preset).bind Value.items?).getD []

/-- The channels of the colors of a preset that are understood, in their order. -/
def acceptedColors (preset : Entries) : List Channels :=
  (presetColors preset).filterMap acceptedColor?

/-- **The tables of a preset** are made of the colors that are understood. -/
theorem duotoneTables_eq {tables : DuotoneTables} (h : duotoneTables preset = .ok tables) :
    tables = ⟨(acceptedColors preset).map (·.red), (acceptedColors preset).map (·.green),
      (acceptedColors preset).map (·.blue), (acceptedColors preset).map (·.alpha)⟩ := by
  obtain ⟨found, hfound, h⟩ := Result.exists_of_bind h
  cases h
  have haccepted : found.map (Option.map Channels.fractions) =
      (presetColors preset).map acceptedColor? :=
    Result.map_eq_map hfound fun v _ channels hv => by rw [acceptedColor?, hv]
  have hfractions : (found.filterMap id).map Channels.fractions = acceptedColors preset := by
    have hnone := congrArg (List.filterMap id) haccepted
    rw [List.filterMap_map, List.filterMap_map] at hnone
    rw [acceptedColors, List.map_filterMap]
    exact hnone
  rw [DuotoneTables.ofChannels, hfractions]

/-! ### Documents -/

/-- What is filled in for a preset. The name may stand in an attribute, and every table has a number
for each color of the preset that is understood, in the order of the colors. -/
structure Filling.IsOf (f : Filling) (preset : Entries) : Prop where
  name : ∃ name, duotoneId preset = .ok name ∧ f.name = Text.escapeMarkup name
  escaped : Text.IsEscaped f.name.toList
  red : HoldsNumbers f.red ((acceptedColors preset).map (·.red))
  green : HoldsNumbers f.green ((acceptedColors preset).map (·.green))
  blue : HoldsNumbers f.blue ((acceptedColors preset).map (·.blue))
  alpha : HoldsNumbers f.alpha ((acceptedColors preset).map (·.alpha))
  count : ∀ content ∈ [f.red, f.green, f.blue, f.alpha], (tableEntries content).length =
    (presetColors preset).countP fun v => (acceptedColor? v).isSome

/-- What is filled in for a name and for the channels of colors. -/
def Filling.ofColors (name : String) (colors : List Channels) : Filling :=
  let table := fun channel => " ".intercalate ((colors.map channel).map Decimal.textSix)
  ⟨Text.escapeMarkup name, table (·.red), table (·.green), table (·.blue), table (·.alpha)⟩

theorem Filling.isOf_ofColors {name : String} (h : duotoneId preset = .ok name) :
    (Filling.ofColors name (acceptedColors preset)).IsOf preset := by
  have hholds := fun channel : Channels → Binary64 =>
    holdsNumbers_intercalate ((acceptedColors preset).map channel)
  have hcount := fun channel => (hholds channel).length.trans
    ((List.length_map channel).trans List.length_filterMap_eq_countP)
  refine ⟨⟨name, h, rfl⟩, Text.isEscaped_escapeMarkup name, hholds (·.red), hholds (·.green),
    hholds (·.blue), hholds (·.alpha), ?_⟩
  simp only [List.forall_mem_cons]
  exact ⟨hcount _, hcount _, hcount _, hcount _, List.forall_mem_nil _⟩

/-- **A preset cannot alter the document of its filter**: it fills in the frame. -/
theorem exists_filling {document : String} (h : duotoneFilter preset = .ok document) :
    ∃ f : Filling, f.IsOf preset ∧ document = f.document := by
  obtain ⟨tables, htables, h⟩ := Result.exists_of_bind h
  obtain ⟨name, hname, h⟩ := Result.exists_of_bind h
  cases h
  refine ⟨Filling.ofColors name (acceptedColors preset), Filling.isOf_ofColors hname, ?_⟩
  rw [duotoneTables_eq htables]
  simp only [Filling.document, Filling.ofColors, tableFrame, DuotoneTables.text, transferFunction,
    String.append_assoc]

/-- The slug is written in markup, and of its four colors two are understood. -/
theorem exists_filling_of_markup :
    let preset : Entries := [(.text "slug", .text "<&amp;\x27\""), (.text "colors", .list [
      .text "#f00", .int 1, .text "no color", .text "rgba(0, 0, 255, 0.5)"])]
    let filled : Filling :=
      ⟨"wp-duotone-&lt;&amp;amp;&#x27;&quot;", "1 0", "0 0", "0 1", "1 0.5"⟩
    duotoneFilter preset = .ok filled.document ∧ (acceptedColors preset).length = 2 ∧
      ∃ f : Filling, f.IsOf preset ∧ filled.document = f.document := by
  intro preset filled
  have hdocument : duotoneFilter preset = .ok filled.document := by decide +kernel
  exact ⟨hdocument, by decide +kernel, exists_filling hdocument⟩

end ThemeSheet
