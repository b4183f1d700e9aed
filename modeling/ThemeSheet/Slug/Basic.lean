import ThemeSheet.Slug.Words
import ThemeSheet.Tree.Spelling

/-!
# Slugs

The slug of a text is its words in small letters with hyphens between them. A straight apostrophe
is dropped before the text is cut, so that `Editor's` is one word. The slug of any other value is
the slug of its spelling.

## Main definitions

* `Slug.split`, `Slug.ofChars`, `Slug.ofString`, `Slug.ofValue`.
-/

namespace ThemeSheet.Slug

/-- The words of a text from which straight apostrophes have been dropped. -/
def split (cs : List Char) : List (List Char) := words (cs.filter (· ≠ '\x27'))

/-- The slug of a text. -/
def ofChars (cs : List Char) : List Char := (Text.joinWith ['-'] (split cs)).map toSmall

/-- The slug of a string. -/
def ofString (s : String) : String := String.ofList (ofChars s.toList)

/-- The words of the spelling of a value. -/
def splitValue (v : Value) : Except Refusal (List String) := do
  let s ← v.spelling
  return (split s.toList).map String.ofList

/-- The slug of the spelling of a value. -/
def ofValue (v : Value) : Except Refusal String := do
  let s ← v.spelling
  return ofString s

/-- The slug of the spelling of a key. -/
def ofKey (k : Key) : Except Refusal String := do
  let s ← k.spelling
  return ofString s

end ThemeSheet.Slug
