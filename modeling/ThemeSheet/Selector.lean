import ThemeSheet.Text.Chars

/-!
# Selectors

A selector is a list of branches with commas between them. Both operations work branch by branch:
appending writes a suffix after every branch, and scoping sets every inner branch below every outer
one, outer by outer. Branches are never merged, even where two of them are equal.

## Main definitions

* `Selector.branches`, `Selector.append`, `Selector.scope`, on strings;
* `branchesOf`, `appendTo`, `scopeUnder`, the same on characters.
-/

namespace ThemeSheet.Selector

/-! ### On characters -/

/-- The branches of a selector, with the blanks around them. -/
def branchesOf (cs : List Char) : List (List Char) := Text.splitOn ',' cs

/-- The selector with a suffix after every branch. -/
def appendTo (cs suffix : List Char) : List Char :=
  Text.joinWith [','] ((branchesOf cs).map (· ++ suffix))

/-- The branches of one selector below those of another, trimmed. -/
def scopedBranches (outer inner : List Char) : List (List Char) :=
  (branchesOf outer).flatMap fun o =>
    (branchesOf inner).map fun i => Text.trim o ++ ' ' :: Text.trim i

/-- The inner selector below every branch of the outer one. -/
def scopeUnder (outer inner : List Char) : List Char :=
  Text.joinWith [',', ' '] (scopedBranches outer inner)

/-! ### On strings -/

/-- The branches of a selector, with the blanks around them. -/
def branches (s : String) : List String := (branchesOf s.toList).map String.ofList

/-- The selector with a suffix after every branch. -/
def append (s suffix : String) : String := String.ofList (appendTo s.toList suffix.toList)

/-- The inner selector below every branch of the outer one. -/
def scope (outer inner : String) : String :=
  String.ofList (scopeUnder outer.toList inner.toList)

end ThemeSheet.Selector
