import ThemeSheet.Tree.Linked

/-!
# How far a reader looks

Whoever reads a tree looks into some of it entry by entry, takes some values as a whole, and has no
use for the rest, or not yet. A reach says which. What there is no use for stays as it is.

What is looked into is written out in every place. So is what is taken as a whole; but a collection
that is inside itself makes a value without end, and is written out until a collection comes inside
itself, which leaves an empty collection. Whoever goes through a whole value comes to the same end
by the marks, and never looks at what was cut off.

What nobody looks into yet is folded: each collection in it is written out in the first place where
it stands, and left empty in all others. A folded value has no more parts than what it was read
from, and can be written out later by whoever does look into it.

## Main definitions

* `Reach`, `Reach.entry`;
* `LinkedTree.fold`, `LinkedTree.writeOut`; `LinkedTree.part`, a part of a tree that is taken out of
  it for a reach;
* `Value.writtenOut`, `Value.readThrough`; `Value.setShared`, an entry written into a tree that is
  written out again.
-/

namespace ThemeSheet

/-- How far a reader looks into a value. -/
inductive Reach where
  /-- There is no use for the value. -/
  | unseen
  /-- The value is not looked into yet. -/
  | folded
  /-- The value is taken as a whole. -/
  | whole
  /-- The value is a mapping of mappings, of which the leaves are taken as a whole. -/
  | leaves
  /-- The items of a list have one reach; the entries of a mapping have the reach of their key, or
  that of all the others. -/
  | into (items : Reach) (named : List (String × Reach)) (others : Reach)
deriving Repr, Inhabited

namespace Reach

/-- Some entries of a mapping have reaches of their own, and all the rest has one. -/
def named (rest : Reach) (names : List (String × Reach)) : Reach := .into rest names rest

/-- All entries of a mapping have one reach, and all the rest another. -/
def entries (rest entry : Reach) : Reach := .into rest [] entry

/-- The items of a list have one reach, and all the rest another. -/
def items (rest item : Reach) : Reach := .into item [] rest

/-- The reach of the items of a list. -/
def item : Reach → Reach
  | .into items _ _ => items
  | .leaves => .whole
  | reach => reach

/-- The reach of the value of a key. -/
def entry (key : Key) : Reach → Reach
  | .into _ named others =>
    match key with
    | .text name => (named.lookup name).getD others
    | _ => others
  | reach => reach

mutual

/-- The number of levels that are looked into. -/
def depth : Reach → Nat
  | .into items named others => max (depth items) (max (depthOfNamed named) (depth others)) + 1
  | _ => 0

/-- The largest number of levels below some names. -/
def depthOfNamed : List (String × Reach) → Nat
  | [] => 0
  | (_, reach) :: rest => max (depth reach) (depthOfNamed rest)

end

/-- The marks that count as around a list with these around it: from a list on, the leaf of a
mapping of mappings is taken as a whole. -/
def aroundList (reach : Reach) (around : List Mark) : List Mark :=
  match reach with
  | .whole => around
  | _ => []

/-- The marks that count as around a mapping with these around it. -/
def aroundMap (reach : Reach) (around : List Mark) : List Mark :=
  match reach with
  | .into .. => []
  | _ => around

/-- The marks that count as around the content of a collection. Whatever is looked into is around
nothing. -/
def within (reach : Reach) (mark : Option Mark) (around : List Mark) : List Mark :=
  match reach with
  | .into .. => []
  | _ => Mark.within mark around

end Reach

/-! ### Parts of a tree -/

namespace LinkedTree

/-- A value of the tree folded. The marks that have been met keep their collections from being
written out again. No value is deeper than the fuel. -/
def fold (t : LinkedTree) : Nat → Value → StateM (List Mark) Value
  | fuel + 1, .list vs mark => do
    if Mark.recurs mark (← get) then return .list [] mark
    else
      modify (Mark.within mark)
      return .list (← (t.itemsOf vs mark).mapM (t.fold fuel)) mark
  | fuel + 1, .map es mark => do
    if Mark.recurs mark (← get) then return .map [] mark
    else
      modify (Mark.within mark)
      return .map (← (t.entriesOf es mark).mapM fun entry => do
        return (entry.1, ← t.fold fuel entry.2)) mark
  | _, v => return v

/-- A value of the tree written out for a reach, with marks around it. No value is deeper than the
fuel. -/
def writeOut (t : LinkedTree) : Nat → Reach → List Mark → Value → Value
  | _, .unseen, _, v => v
  | fuel, .folded, _, v => ((t.fold fuel v).run []).1
  | fuel + 1, reach, around, .list vs mark =>
    let around := reach.aroundList around
    if Mark.recurs mark around then .list [] mark
    else .list ((t.itemsOf vs mark).map
      (t.writeOut fuel reach.item (reach.within mark around))) mark
  | fuel + 1, reach, around, .map es mark =>
    let around := reach.aroundMap around
    if Mark.recurs mark around then .map [] mark
    else
      let around := reach.within mark around
      .map ((t.entriesOf es mark).map fun entry =>
        (entry.1, t.writeOut fuel (reach.entry entry.1) around entry.2)) mark
  | _, _, _, v => v

/-- A part of the tree, taken out of it for a reach. Between two shared collections on the way into
it there are fewer values than the tree has. -/
def part (t : LinkedTree) (reach : Reach) (v : Value) : Value :=
  t.writeOut ((reach.depth + 2 * t.collections.length + 2) * (t.size + 1)) reach [] v

/-- The tree written out for a reach. -/
def writtenOut (t : LinkedTree) (reach : Reach) : Value :=
  if t.bound = 0 then t.tree else t.part reach t.tree

end LinkedTree

namespace Value

/-- A tree written out for a reach. -/
def writtenOut (reach : Reach) (tree : Value) : Value := LinkedTree.writtenOut { tree } reach

/-- What a step makes of a tree written out for a reach. A step that fails does so at the first
place of a collection, so it fails on the folded tree already, which may be much smaller. -/
def readThrough {ε α : Type} (reach : Reach) (step : Value → Except ε α) (tree : Value) :
    Except ε α := do
  if tree.isShared then
    let _ ← step tree
    step (tree.writtenOut reach)
  else step tree

/-- A tree, written out for a reach, with an entry written into the mapping at a path, wherever that
mapping stands. -/
def setShared (reach : Reach) (path : Path) (name : String) (tree value : Value) : Value :=
  match tree.at? path with
  | some (.map _ (some mark)) => (LinkedTree.withEntry { tree } mark name value).writtenOut reach
  | _ => tree.set (path ++ [name]) value

end Value

end ThemeSheet
