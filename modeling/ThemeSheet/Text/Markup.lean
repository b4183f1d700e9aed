/-!
# Texts in markup

The five characters that mean something in HTML are written as entities, both quotes among them, so
that an escaped text can stand in an attribute.

## Main definitions

* `escapeMarkup`.
-/

namespace ThemeSheet.Text

/-- A character as it is written in markup. -/
def markupChar (c : Char) : List Char :=
  if c = '&' then "&amp;".toList
  else if c = '<' then "&lt;".toList
  else if c = '>' then "&gt;".toList
  else if c = '"' then "&quot;".toList
  else if c = '\x27' then "&#x27;".toList
  else [c]

/-- A text as it is written in markup. -/
def escapeMarkup (s : String) : String := String.ofList (s.toList.flatMap markupChar)

end ThemeSheet.Text
