import ThemeSheet.Tree.Linked
import ThemeSheet.Yaml.Sharing

/-!
# Reading YAML

The value of a document: scalars become what they mean, sequences lists, and mappings mappings. The
last of several values under one key counts. Whatever is wrong has been found out level by level
before. A collection that stands in several places is set apart, and has its mark in all of them.

## Main definitions

* `Progress.linked`, the tree of a document whose values have been made;
* `Yaml.read`.
-/

namespace ThemeSheet.Yaml

/-- The value of a node, with the values of collections by their marks. -/
def Node.value (held : Mark → Except Error Value) : Node → Except Error Value
  | .scalar tag text _ => textualValue tag text
  | .collection mark => held mark

namespace Collection

/-- The value of a collection, with those of the collections in it by their marks. -/
def value (held : Mark → Except Error Value) (mark : Option Mark) :
    Collection → Except Error Value
  | .sequence _ items => do return .list (← items.mapM (Node.value held)) mark
  | .mapping _ entries => do
    return .map (Entries.ofList (← entries.mapM fun entry => do
      return (← entry.1.key, ← entry.2.value held))) mark

/-- A collection of the same kind that holds nothing. -/
def hollow (mark : Mark) : Collection → Value
  | .sequence .. => .list [] (some mark)
  | .mapping .. => .map [] (some mark)

end Collection

namespace Progress

/-- The value in a place where a collection stands: one that is shared is set apart. No collection
is inside more others than the fuel. -/
def valueAt (p : Progress) (shared : Array Bool) : Nat → Mark → Except Error Value
  | 0, _ => .ok .null
  | fuel + 1, mark =>
    match p.collections[mark]? with
    | none => .ok .null
    | some collection =>
      if shared.getD mark false then .ok (collection.hollow mark)
      else collection.value (p.valueAt shared fuel) none

/-- A shared collection by its mark. -/
def sharedValue (p : Progress) (held : Mark → Except Error Value) (mark : Mark) :
    Except Error (Option (Mark × Value)) :=
  match p.collections[mark]? with
  | none => .ok none
  | some collection => do return some (mark, ← collection.value held (some mark))

/-- The tree of a document whose values have been made. -/
def linked (p : Progress) (root : Node) : Except Error LinkedTree := do
  let number := p.collections.size
  let shared := p.isShared root
  let held := p.valueAt shared (number + 1)
  let tree ← root.value held
  let marks := p.madeMarks.filter fun mark => shared.getD mark false
  let collections := (← marks.mapM (p.sharedValue held)).filterMap id
  if collections.isEmpty then return { tree, bound := 0 }
  else
    let size := collections.foldl (fun n entry => n + entry.2.size) tree.size
    return { tree, collections, bound := number, size }

end Progress

/-- The tree of a document. -/
def Document.tree (d : Document) : Except Error LinkedTree := do
  (← d.made).linked d.root

/-- The tree of a YAML text. -/
def read (text : List Char) : Except Error LinkedTree := do
  (← Document.ofTokens (← tokens text)).tree

end ThemeSheet.Yaml
