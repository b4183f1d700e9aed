import ThemeSheet.Yaml.Level

/-!
# Collections that stand in several places

Once the values of a document have been made, a collection stands in several places if several
collections hold it, or one holds it several times. What such a collection holds stands in several
places with it. These collections are shared, and all others stand in one place only.

## Main definitions

* `Collection.marks`, the collections that a collection holds;
* `Progress.isShared`, for each collection whether it is shared.
-/

namespace ThemeSheet.Yaml

/-- The mark of a node that is a collection. -/
def Node.mark? : Node → Option Mark
  | .collection mark => some mark
  | .scalar .. => none

/-- The marks of the collections that a collection holds, each as often as it holds it. -/
def Collection.marks : Collection → List Mark
  | .sequence _ items => items.filterMap Node.mark?
  | .mapping _ entries => entries.filterMap fun entry => entry.2.mark?

namespace Progress

/-- The marks in the collection of a mark. -/
def marksIn (p : Progress) (mark : Mark) : List Mark :=
  (p.collections[mark]?.map Collection.marks).getD []

/-- The marks of the collections whose values have been made. -/
def madeMarks (p : Progress) : List Mark :=
  (List.range p.collections.size).filter fun mark => p.isMade.getD mark false

/-- For each collection in how many places it stands, apart from the root. -/
def placeCounts (p : Progress) : Array Nat :=
  (p.madeMarks.flatMap p.marksIn).foldl (fun counts mark => counts.modify mark (· + 1))
    (Array.replicate p.collections.size 0)

/-- Adds a mark to those that are found, and the marks in its collection to those that are looked at
next. -/
def find (p : Progress) (state : Array Bool × List Mark) (mark : Mark) : Array Bool × List Mark :=
  if state.1.getD mark true then state
  else (state.1.setIfInBounds mark true, p.marksIn mark ++ state.2)

/-- All that is found from some marks on, with what has been found before. Each round finds a mark,
so as many rounds as there are collections and one more are enough. -/
def findFrom (p : Progress) : Nat → Array Bool → List Mark → Array Bool
  | 0, found, _ => found
  | fuel + 1, found, marks =>
    let (found, next) := marks.foldl p.find (found, [])
    if next.isEmpty then found else p.findFrom fuel found next

/-- For each collection whether it is shared, with the root of the document. -/
def isShared (p : Progress) (root : Node) : Array Bool :=
  let counts := match root with
    | .collection mark => p.placeCounts.modify mark (· + 1)
    | .scalar .. => p.placeCounts
  let repeated := p.madeMarks.filter fun mark => 1 < counts.getD mark 0
  p.findFrom (p.collections.size + 1) (Array.replicate p.collections.size false) repeated

end Progress

end ThemeSheet.Yaml
