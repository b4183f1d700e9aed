import ThemeSheet.Yaml.Scalar

/-!
# Merged mappings

A key that is the merge mark does not count itself. The entries of its value, or of all the mappings
in its value, stand in front of the other entries, so that these win over them, and an earlier
mapping wins over a later one.

A mapping is merged when its content is made, and its sources right before it. From then on it has
the merged entries wherever it stands. A source may be a mapping that is being merged itself; it
then gives the entries that it has at that time.

What is neither a mapping nor a sequence of mappings cannot be merged.

## Main definitions

* `Progress`, `Making`, a step in making the values of a document;
* `Node.isMerge`; `Making.mergeInto`, `Making.merge`, the merging of a mapping.
-/

namespace ThemeSheet.Yaml

/-! ### Merge marks -/

namespace Node

/-- Whether a node is the merge mark. -/
def isMerge : Node → Bool
  | .scalar none text _ => Plain.meaning text == .merge
  | .scalar (some t) _ _ => t == scalarTagOf "merge"
  | _ => false

/-- The value of the first merge mark in some entries, and the entries without it. -/
def takeMerge : List (Node × Node) → Option (Node × List (Node × Node))
  | [] => none
  | (key, value) :: rest =>
    if key.isMerge then some (value, rest)
    else (takeMerge rest).map fun taken => (taken.1, (key, value) :: taken.2)

end Node

/-! ### Steps -/

/-- The number of merge marks in a collection. -/
def Collection.mergeMarks : Collection → Nat
  | .sequence .. => 0
  | .mapping _ entries => entries.countP fun entry => entry.1.isMerge

/-- How far the values of a document have been made. -/
structure Progress where
  /-- The collections, in which some mappings have been merged. -/
  collections : Array Collection
  /-- For each collection whether its value has been made. -/
  isMade : Array Bool := Array.replicate collections.size false
  /-- The anchors of the marks of the value itself that have become texts. -/
  texts : List String := []
  /-- A number of merge marks that is not exceeded. -/
  mergeMarks : Nat := collections.foldl (fun n collection => n + collection.mergeMarks) 0

/-- A step in making the values of a document. -/
abbrev Making := StateT Progress (Except Error)

namespace Making

/-- The collection of a mark. -/
def collection? (mark : Mark) : Making (Option Collection) := do
  return (← get).collections[mark]?

/-- Puts a collection in the place of another. -/
def replace (mark : Mark) (collection : Collection) : Making Unit :=
  modify fun s => { s with collections := s.collections.setIfInBounds mark collection }

/-- The entries of a mapping, merged before by a step; anything else cannot be merged. -/
def entriesOf (merge : Mark → Making Unit) : Node → Making (List (Node × Node))
  | .scalar .. => throw (.malformed .notMergeable)
  | .collection mark => do
    match ← collection? mark with
    | some (.mapping ..) =>
      merge mark
      match ← collection? mark with
      | some (.mapping _ entries) => return entries
      | _ => return []
    | _ => throw (.malformed .notMergeable)

/-- The entries that a value gives to a mapping it is merged into: its own, or those of its items,
of which the first comes last. -/
def sources (merge : Mark → Making Unit) (value : Node) : Making (List (Node × Node)) := do
  match value with
  | .collection mark =>
    match ← collection? mark with
    | some (.sequence _ items) => return (← items.mapM (entriesOf merge)).reverse.flatten
    | _ => entriesOf merge value
  | .scalar .. => entriesOf merge value

/-- Merges a mapping, with the entries that have been found for it. Each round takes away a merge
mark, so as many rounds as there are merge marks and one more are enough. -/
def mergeInto : Nat → List (Node × Node) → Mark → Making Unit
  | 0, _, _ => return ()
  | fuel + 1, found, mark => do
    match ← collection? mark with
    | some (.mapping tag entries) =>
      match Node.takeMerge entries with
      | none => replace mark (.mapping tag (found ++ entries))
      | some (value, others) =>
        replace mark (.mapping tag others)
        let more ← sources (mergeInto fuel []) value
        mergeInto fuel (found ++ more) mark
    | _ => return ()

/-- Merges a mapping. -/
def merge (mark : Mark) : Making Unit := do
  mergeInto ((← get).mergeMarks + 1) [] mark

end Making

end ThemeSheet.Yaml
