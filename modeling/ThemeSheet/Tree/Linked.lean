import ThemeSheet.Tree.Path
import ThemeSheet.Tree.Shared
import ThemeSheet.Tree.Spelling

/-!
# Linked trees

A linked tree keeps its shared collections apart from the places where they stand. In such a place
there is the collection with its mark, but what it holds is looked up by the mark. So the size of a
linked tree is that of what it was read from, even if one collection stands in another many times
over, or inside itself.

A tree as a value is a linked tree, too: what a mark means is then said by the first collection that
has it.

## Main definitions

* `LinkedTree`, with `itemsOf`, `entriesOf` and `walk?`, the reading of it;
* `LinkedTree.changeAt`, a change of the mapping at some keys; `LinkedTree.withEntry`, an entry
  written into the mapping of a mark.
-/

namespace ThemeSheet

/-- The pairs of shared collections around the content of two collections that are gone through
together. Two that come inside themselves together go on for ever, which is refused. -/
def Mark.pairsWithin (refusal : Refusal) (first second : Option Mark)
    (around : List (Mark × Mark)) : Except Refusal (List (Mark × Mark)) :=
  match first, second with
  | some m, some n => if around.contains (m, n) then .error refusal else .ok ((m, n) :: around)
  | _, _ => .ok around

/-- A tree with its shared collections set apart. -/
structure LinkedTree where
  tree : Value
  /-- The shared collections by their marks. -/
  collections : List (Mark × Value) := tree.marked
  /-- A number above all marks. -/
  bound : Nat := tree.markBound
  /-- A number of values that neither the tree nor a collection exceeds. -/
  size : Nat := tree.size

namespace LinkedTree

/-! ### Reading -/

/-- The collection of a mark, or a value that has none. -/
def known (t : LinkedTree) (mark : Option Mark) (v : Value) : Value :=
  (mark.bind fun m => t.collections.lookup m).getD v

/-- The entries of a mapping of the tree. -/
def entriesOf (t : LinkedTree) (es : Entries) (mark : Option Mark) : Entries :=
  ((t.known mark (.map es)).entries?).getD es

/-- The items of a list of the tree. -/
def itemsOf (t : LinkedTree) (vs : List Value) (mark : Option Mark) : List Value :=
  ((t.known mark (.list vs)).items?).getD vs

/-- The entries of a value of the tree that is a mapping. -/
def entries? (t : LinkedTree) : Value → Option Entries
  | .map es mark => some (t.entriesOf es mark)
  | _ => none

/-- The value reached from another by walking keys. -/
def walk? (t : LinkedTree) : List Key → Value → Option Value
  | [], v => some v
  | key :: rest, v => ((t.entries? v).bind (Entries.get? key)).bind (t.walk? rest)

/-- A linked tree whose root is a mapping of its own, with the entries that the root had. -/
def withOwnRoot (t : LinkedTree) (es : Entries) (mark : Option Mark) : LinkedTree :=
  { t with tree := .map (t.entriesOf es mark) }

/-! ### Changing -/

/-- Where a collection is held: in the tree, or in the shared collection of a mark; and the keys
that lead to it there. -/
structure Home where
  holder : Option Mark := none
  keys : List Key := []

/-- Where a value is held that was come to in a place: a shared collection is held on its own. -/
def Home.of (place : Home) : Value → Home
  | .map _ (some mark) => { holder := some mark }
  | .list _ (some mark) => { holder := some mark }
  | _ => place

/-- Where the value is held that is reached from another by walking keys. -/
def home? (t : LinkedTree) (place : Home) : List Key → Value → Option Home
  | [], v => some (place.of v)
  | key :: rest, v =>
    let place := place.of v
    ((t.entries? v).bind (Entries.get? key)).bind
      (t.home? { place with keys := place.keys ++ [key] } rest)

/-- A value in which the mapping at some keys is changed. -/
def changed (change : Entries → Entries) : List Key → Value → Value
  | [], v => v.onMap change
  | key :: rest, v => v.onMap fun es =>
    match Entries.get? key es with
    | some child => Entries.insert key (changed change rest child) es
    | none => es

/-- The shared collections with another in the place of that of a mark. -/
def replaced (t : LinkedTree) (mark : Mark) (change : Value → Value) : List (Mark × Value) :=
  t.collections.map fun entry => if entry.1 = mark then (mark, change entry.2) else entry

/-- A linked tree in which the mapping at some keys is changed, and so wherever it stands. -/
def changeAt (t : LinkedTree) (keys : List Key) (change : Entries → Entries) : LinkedTree :=
  match t.home? {} keys t.tree with
  | some ⟨none, keys⟩ => { t with tree := changed change keys t.tree }
  | some ⟨some mark, keys⟩ => { t with collections := t.replaced mark (changed change keys) }
  | none => t

/-- A linked tree with an entry written into the mapping of a mark, and so wherever it stands. -/
def withEntry (t : LinkedTree) (mark : Mark) (name : String) (value : Value) : LinkedTree where
  tree := t.tree
  collections := t.replaced mark (Value.onMap (Entries.insert (.text name) value)) ++ value.marked
  bound := max t.bound value.markBound
  size := t.size + value.size

end LinkedTree

end ThemeSheet
