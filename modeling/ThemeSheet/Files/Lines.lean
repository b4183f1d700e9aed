import ThemeSheet.Files.Utf8

/-!
# The text of a file

The text of a file is what its bytes encode, with the line ends made alike: a carriage return, alone
or before a line feed, is a line feed.

## Main definitions

* `Text.unifyLines`, `Text.ofBytes`.
-/

namespace ThemeSheet.Text

/-- A text with line ends made alike. -/
def unifyLines : List Char → List Char
  | [] => []
  | '\r' :: '\n' :: rest => '\n' :: unifyLines rest
  | c :: rest => (if c = '\r' then '\n' else c) :: unifyLines rest

/-- No carriage return is left. -/
theorem not_mem_unifyLines (cs : List Char) : '\r' ∉ unifyLines cs := by
  fun_induction unifyLines cs with
  | case1 => simp
  | case2 rest ih => simpa using ih
  | case3 c rest _ ih =>
    by_cases h : c = '\r'
    · simpa [h] using ih
    · simpa [h, eq_comm] using ih

/-- The text that bytes hold. -/
def ofBytes (bytes : List UInt8) : Except Utf8.Fault (List Char) := do
  return unifyLines (← Utf8.decode bytes)

end ThemeSheet.Text
