import ThemeSheet.Tree.Basic

/-!
# Equality of values

When a theme preset is compared with the presets it must not replace, values are compared by what
they mean and not by how they were written: `1`, `1.0` and `true` are the same, and a mapping does
not depend on the order of its keys. Not-a-number of one sign is the same as itself where it is an
item of a container, but two values compared on their own are equal only if neither is not-a-number.

## Main definitions

* `Value.same`, by recursion on the first value; `Value.sameMember`, membership up to it;
* `Value.equals`, the comparison of two values on their own.
-/

namespace ThemeSheet.Value

/-- The integer that a truth value stands for. -/
def boolInt (b : Bool) : Int := if b then 1 else 0

/-- Whether two values that are not containers are the same. -/
def sameScalar : Value → Value → Bool
  | .null, .null => true
  | .text s, .text t => decide (s = t)
  | .bool a, .bool b => decide (a = b)
  | .bool a, .int n => decide (boolInt a = n)
  | .int n, .bool a => decide (n = boolInt a)
  | .int m, .int n => decide (m = n)
  | .float x, .float y => decide (x = y) || x.same y
  | .float x, .int n => x.isInt n
  | .int n, .float x => x.isInt n
  | .float x, .bool b => x.isInt (boolInt b)
  | .bool b, .float x => x.isInt (boolInt b)
  | .moment m, .moment n => decide (m.identity = n.identity)
  | _, _ => false

mutual

/-- Whether two values are the same. -/
def same : Value → Value → Bool
  | .list xs _, w => match w with
    | .list ys _ => sameItems xs ys
    | _ => false
  | .map es _, w => match w with
    | .map fs _ => decide (es.length = fs.length) && sameEntries es fs
    | _ => false
  | v, w => sameScalar v w

/-- Whether two lists of values are the same item by item. -/
def sameItems : List Value → List Value → Bool
  | [], ys => ys.isEmpty
  | x :: xs, ys => match ys with
    | [] => false
    | y :: ys => same x y && sameItems xs ys

/-- Whether every entry has the same value under its key in the other mapping. -/
def sameEntries : List (Key × Value) → Entries → Bool
  | [], _ => true
  | (k, v) :: rest, fs =>
    (match Entries.get? k fs with
      | some w => same v w
      | none => false) && sameEntries rest fs

end

/-- Whether a value is the same as one of a list. -/
def sameMember (v : Value) (vs : List Value) : Bool := vs.any (same v)

/-- Whether a value is not-a-number. -/
def isNotANumber : Value → Bool
  | .float x => x.isNan
  | _ => false

/-- Whether two values, compared on their own, are equal. -/
def equals (v w : Value) : Bool := !v.isNotANumber && v.same w

end ThemeSheet.Value
