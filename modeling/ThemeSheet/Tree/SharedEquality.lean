import ThemeSheet.Tree.Equality
import ThemeSheet.Tree.Linked

/-!
# Equality of values with collections inside themselves

Two values are compared part by part, and the first two parts that differ decide. What is in a
shared collection is looked up by its mark, so a value may be folded. Two values that go on for ever
alike have no first difference: comparing them is refused.

Collections of different lengths differ before any part of them is compared.

## Main definitions

* `Value.sameShared`, `Value.sharedMember`, `Value.equalsShared`.
-/

namespace ThemeSheet

/-- Whether parts of two trees are the same, with the pairs of shared collections around them. No
part is deeper than the fuel before such a pair comes again. -/
def LinkedTree.samePart (left right : LinkedTree) :
    Nat → List (Mark × Mark) → Value → Value → Except Refusal Bool
  | 0, _, _, _ => .error .incomparable
  | fuel + 1, around, v, w =>
    match v, w with
    | .list vs first, .list ws second => do
      let vs := left.itemsOf vs first
      let ws := right.itemsOf ws second
      if vs.length ≠ ws.length then return false
      let around ← Mark.pairsWithin .incomparable first second around
      (vs.zip ws).allM fun pair => left.samePart right fuel around pair.1 pair.2
    | .map es first, .map fs second => do
      let es := left.entriesOf es first
      let fs := right.entriesOf fs second
      if es.length ≠ fs.length then return false
      let around ← Mark.pairsWithin .incomparable first second around
      es.allM fun entry =>
        match Entries.get? entry.1 fs with
        | some w => left.samePart right fuel around entry.2 w
        | none => .ok false
    | v, w => .ok (Value.sameScalar v w)

namespace Value

/-- Whether two values are the same. -/
def sameShared (v w : Value) : Except Refusal Bool :=
  LinkedTree.samePart { tree := v } { tree := w } ((v.size + 1) * (w.size + 1)) [] v w

/-- Whether a value is the same as one of a list. -/
def sharedMember (v : Value) (vs : List Value) : Except Refusal Bool :=
  vs.anyM fun w => sameShared w v

/-- Whether two values, compared on their own, are equal. -/
def equalsShared (v w : Value) : Except Refusal Bool :=
  if v.isNotANumber then .ok false else sameShared v w

end Value

end ThemeSheet
