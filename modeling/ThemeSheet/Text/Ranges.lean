/-!
# Ranges of code points

A set of characters given by a table is a list of closed ranges of code points. Membership is a
search of the table, so a statement about one character is settled by evaluation.
-/

namespace ThemeSheet.Text

/-- Whether a code point lies in one of the ranges. -/
def inRanges (table : List (Nat × Nat)) (code : Nat) : Bool :=
  table.any fun range => decide (range.1 ≤ code) && decide (code ≤ range.2)

end ThemeSheet.Text
