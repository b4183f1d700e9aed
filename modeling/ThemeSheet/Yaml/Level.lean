import ThemeSheet.Yaml.Merge

/-!
# The order in which values are made

The values of a document are made level by level. A scalar is made at once; of a collection only its
tag is looked at, and its content is left for the next level. A collection that stands in several
places is made in the first of them. So the fault or mishap that counts is not the first one of the
text, but the first one of the outermost level that has any.

Where the content of a mapping is made, the mapping is merged, and then come its keys and values in
order. A collection is no key.

The mark of the value itself is a text as a key, and a fault as a value. But a scalar with an anchor
is one scalar wherever its aliases stand: once the content of a mapping is made that has it as a
key, it is a text everywhere.

## Main definitions

* `Making.node`, `Making.content`, the steps; `Making.levels`, all steps from some collections on;
* `Document.made`, how far the values of a document have been made after all steps.
-/

namespace ThemeSheet.Yaml

/-! ### Marks of the value itself -/

namespace Node

/-- The anchor of a key that is the mark of the value itself. -/
def selfAnchor? : Node → Option String
  | .scalar tag text (some name) =>
    match meaning tag text with
    | .ok .self => some name
    | _ => none
  | _ => none

/-- Whether a scalar is a mark of the value itself that has become a text. -/
def isTextual (texts : List String) (node : Node) : Bool := node.selfAnchor?.any texts.contains

end Node

namespace Collection

/-- The tag of a collection. -/
def tag : Collection → String
  | .sequence tag _ => tag
  | .mapping tag _ => tag

/-- Whether the tag of a collection is that of one, perhaps of another kind. -/
def hasCoreTag (c : Collection) : Bool :=
  c.tag == ({} : CoreTag).sequence || c.tag == ({} : CoreTag).mapping

end Collection

/-! ### Levels -/

namespace Making

/-- Makes a collection, and leaves it for the next level if it has not been made before. -/
def enter (mark : Mark) : Making (List Mark) := do
  let s ← get
  if s.isMade.getD mark true then return []
  else
    if !(s.collections[mark]?).any Collection.hasCoreTag then throw (.malformed .unknownTag)
    set { s with isMade := s.isMade.setIfInBounds mark true }
    return [mark]

/-- Makes a node. The collections that are left for the next level are returned. -/
def node (n : Node) : Making (List Mark) := do
  match n with
  | .collection mark => enter mark
  | .scalar tag text _ =>
    if !n.isTextual (← get).texts then
      let _ ← Node.scalarValue tag text
    return []

/-- Makes an entry. -/
def entry (e : Node × Node) : Making (List Mark) := do
  let _ ← e.1.key
  node e.2

/-- Makes the content of a collection. -/
def content (mark : Mark) : Making (List Mark) := do
  match ← collection? mark with
  | some (.sequence tag items) =>
    if tag ≠ ({} : CoreTag).sequence then throw (.malformed .unknownTag)
    return (← items.mapM node).flatten
  | some (.mapping tag _) =>
    if tag ≠ ({} : CoreTag).mapping then throw (.malformed .unknownTag)
    merge mark
    match ← collection? mark with
    | some (.mapping _ entries) =>
      let texts := entries.filterMap fun e => e.1.selfAnchor?
      modify fun s => { s with texts := texts ++ s.texts }
      return (← entries.mapM entry).flatten
    | _ => return []
  | none => return []

/-- Makes the content of a level of collections, and the levels after it. Each level has a
collection that none before it has. -/
def levels : Nat → List Mark → Making Unit
  | 0, _ => return ()
  | fuel + 1, level => do
    let next := (← level.mapM content).flatten
    if next.isEmpty then return () else levels fuel next

end Making

/-- How far the values of a document have been made once nothing is left. -/
def Document.made (d : Document) : Except Error Progress := do
  let steps : Making Unit := do Making.levels (d.collections.size + 1) (← Making.node d.root)
  return (← steps.run { collections := d.collections }).2

end ThemeSheet.Yaml
