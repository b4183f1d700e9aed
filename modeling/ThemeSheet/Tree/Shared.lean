import ThemeSheet.Tree.Basic

/-!
# Shared collections

A collection with a mark stands in several places of a tree and is one collection in all of them.
Not every place of a mark shows what the collection holds; but the first one in the tree does, and
so does every place that is looked into.

A copy of a tree has marks of its own: within the copy collections are shared as before, but none is
shared with the tree that was copied.

## Main definitions

* `Value.markBound`, a number above all marks; `Value.isShared`, `Value.size`;
* `Value.raised`, a copy with other marks;
* `Value.marked`, the collections of a tree by their marks.
-/

namespace ThemeSheet

namespace Value

/-! ### Measures -/

/-- A number above a mark. -/
def above (mark : Option Mark) : Nat := mark.elim 0 (· + 1)

mutual

/-- A number above all marks of a value; zero if it has none. -/
def markBound : Value → Nat
  | .list vs mark => max (above mark) (itemsBound vs)
  | .map es mark => max (above mark) (entriesBound es)
  | _ => 0

/-- A number above all marks of the items of a list. -/
def itemsBound : List Value → Nat
  | [] => 0
  | v :: vs => max (markBound v) (itemsBound vs)

/-- A number above all marks of the values of a mapping. -/
def entriesBound : List (Key × Value) → Nat
  | [] => 0
  | (_, v) :: es => max (markBound v) (entriesBound es)

end

/-- Whether anything in a value has a mark. -/
def isShared (v : Value) : Bool := decide (v.markBound ≠ 0)

mutual

/-- The number of values in a value, itself among them. -/
def size : Value → Nat
  | .list vs _ => itemsSize vs + 1
  | .map es _ => entriesSize es + 1
  | _ => 1

/-- The number of values in the items of a list. -/
def itemsSize : List Value → Nat
  | [] => 0
  | v :: vs => size v + itemsSize vs

/-- The number of values in the values of a mapping. -/
def entriesSize : List (Key × Value) → Nat
  | [] => 0
  | (_, v) :: es => size v + entriesSize es

end

/-! ### Copies -/

mutual

/-- A copy of a value, whose marks are larger by an offset. -/
def raised (offset : Nat) : Value → Value
  | .list vs mark => .list (raisedItems offset vs) (mark.map (· + offset))
  | .map es mark => .map (raisedEntries offset es) (mark.map (· + offset))
  | v => v

/-- Copies of the items of a list. -/
def raisedItems (offset : Nat) : List Value → List Value
  | [] => []
  | v :: vs => raised offset v :: raisedItems offset vs

/-- Copies of the entries of a mapping. -/
def raisedEntries (offset : Nat) : List (Key × Value) → Entries
  | [] => []
  | (k, v) :: es => (k, raised offset v) :: raisedEntries offset es

end

/-! ### Marked collections -/

mutual

/-- The collections of a value by their marks. The first one of a mark has its content. -/
def marked : Value → List (Mark × Value)
  | .list vs mark => (mark.map fun m => (m, Value.list vs mark)).toList ++ markedInItems vs
  | .map es mark => (mark.map fun m => (m, Value.map es mark)).toList ++ markedInEntries es
  | _ => []

/-- The collections in the items of a list by their marks. -/
def markedInItems : List Value → List (Mark × Value)
  | [] => []
  | v :: vs => marked v ++ markedInItems vs

/-- The collections in the values of a mapping by their marks. -/
def markedInEntries : List (Key × Value) → List (Mark × Value)
  | [] => []
  | (_, v) :: es => marked v ++ markedInEntries es

end

end Value

end ThemeSheet
