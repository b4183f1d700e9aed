import ThemeSheet.Number.Binary64
import ThemeSheet.Tree.Moment

/-!
# Theme trees

A theme tree is a nested structure of mappings and lists over scalars. Mappings keep the order in
which their keys came, because that order is the order of the compiled stylesheet, so a mapping is
a list of entries and not a search tree.

**Keys.** Nearly every key is a text. A file format with untyped keys can also produce the other
scalars, and two of those that are equal as numbers are the same key: `1`, `1.0` and `true` address
one entry, and so do two moments at the same time. `Key.identity` is the representative of a key
under that equality, and `Key.agrees` compares representatives, so it is an equivalence by
construction. Writing to an existing key keeps the key as it was first written.

A mapping built by this library never holds two entries of one key; `Entries.Distinct` says so.

**Marks.** A file format with references can put one collection in several places of a tree, and
even inside itself. A mark says that it is one and the same: collections with one mark are one
collection, and a collection without a mark stands in one place only. What a shared collection holds
is shown in the first place where it stands, and in every other place that someone has looked into;
elsewhere it is left empty, and known by its mark. Whoever goes through a whole value stops where a
collection comes inside itself.

## Main definitions

* `Key`, `Mark`, `Value`, `Entries`;
* `Entries.get?`, `Entries.insert`, `Entries.erase`, `Entries.ofList`;
* `Value.entryNamed?`, the reading of one key of a value.
-/

namespace ThemeSheet

/-- A key of a mapping. -/
inductive Key where
  | text (name : String)
  | null
  | bool (b : Bool)
  | int (n : Int)
  | float (x : Binary64)
  | moment (m : Moment)
deriving DecidableEq, Repr, Inhabited

/-- What tells that collections in several places of a tree are one. -/
abbrev Mark := Nat

/-- A theme tree. -/
inductive Value where
  | null
  | bool (b : Bool)
  | int (n : Int)
  | float (x : Binary64)
  | moment (m : Moment)
  | text (s : String)
  | list (items : List Value) (mark : Option Mark := none)
  | map (entries : List (Key × Value)) (mark : Option Mark := none)
deriving Repr, BEq, Inhabited

/-! ### Marks -/

namespace Mark

/-- Whether a collection is one of those around it, which a collection without a mark never is. -/
def recurs (mark : Option Mark) (around : List Mark) : Bool := mark.any around.contains

/-- The marks around the content of a collection. -/
def within (mark : Option Mark) (around : List Mark) : List Mark := mark.toList ++ around

@[simp] theorem recurs_none (around : List Mark) : recurs none around = false := rfl

@[simp] theorem within_none (around : List Mark) : within none around = around := rfl

end Mark

/-- The entries of a mapping, in the order in which their keys came. -/
abbrev Entries := List (Key × Value)

namespace Key

/-- The representative of a key: a truth value and an integral number stand for the integer, and a
moment for its own representative. -/
def identity : Key → Key
  | .bool b => .int (if b then 1 else 0)
  | .float x => if x.isInteger then .int x.truncate else .float x
  | .moment m => .moment m.identity
  | k => k

/-- Whether two keys address the same entry. -/
def agrees (a b : Key) : Bool := decide (a.identity = b.identity)

@[simp] theorem agrees_self (k : Key) : k.agrees k = true := by simp [agrees]

theorem agrees_comm (a b : Key) : a.agrees b = b.agrees a := by
  simp only [agrees, eq_comm]

theorem agrees_trans {a b c : Key} (h : a.agrees b = true) (h' : b.agrees c = true) :
    a.agrees c = true := by
  simp only [agrees, decide_eq_true_eq] at *
  exact h.trans h'

/-- A text addresses the entry of that text alone. -/
theorem text_agrees_iff {name : String} {k : Key} :
    (Key.text name).agrees k = true ↔ k = .text name := by
  cases k with
  | float x =>
    simp only [agrees, identity]
    constructor
    · intro h
      split at h <;> cases h
    · intro h
      cases h
  | _ => simp [agrees, identity, eq_comm]

end Key

namespace Entries

/-- The value of a key. -/
def get? (key : Key) : Entries → Option Value
  | [] => none
  | (k, v) :: rest => if key.agrees k then some v else get? key rest

/-- Whether a key has an entry. -/
def contains (key : Key) (es : Entries) : Bool := (get? key es).isSome

/-- The entries with a value written under a key: in its place if the key is there, else at the
end. -/
def insert (key : Key) (value : Value) : Entries → Entries
  | [] => [(key, value)]
  | (k, v) :: rest => if key.agrees k then (k, value) :: rest else (k, v) :: insert key value rest

/-- The entries without a key. -/
def erase (key : Key) : Entries → Entries
  | [] => []
  | (k, v) :: rest => if key.agrees k then rest else (k, v) :: erase key rest

/-- The mapping of a list of pairs: a later pair wins, at the place of the first of its key. -/
def ofList (pairs : List (Key × Value)) : Entries :=
  pairs.foldl (fun es pair => insert pair.1 pair.2 es) []

/-- No key has two entries. -/
def Distinct (es : Entries) : Prop :=
  es.Pairwise fun a b => a.1.agrees b.1 = false

/-- The value under a text. -/
def named? (name : String) (es : Entries) : Option Value := get? (.text name) es

end Entries

namespace Value

/-- The empty mapping. -/
def emptyMap : Value := .map []

/-- The entries of a mapping. -/
def entries? : Value → Option Entries
  | .map es _ => some es
  | _ => none

/-- Whether a value is a mapping. -/
def isMap : Value → Bool
  | .map _ _ => true
  | _ => false

/-- Whether a value is null. -/
def isNull : Value → Bool
  | .null => true
  | _ => false

/-- The value under a text, if the value is a mapping that has it. -/
def entryNamed? (name : String) : Value → Option Value
  | .map es _ => Entries.named? name es
  | _ => none

/-- The items of a list. -/
def items? : Value → Option (List Value)
  | .list vs _ => some vs
  | _ => none

/-- The text of a text value. -/
def text? : Value → Option String
  | .text s => some s
  | _ => none

/-- Whether a value counts as true where a flag is read: everything does but null, false, zero and
what is empty. -/
def truthy : Value → Bool
  | .null => false
  | .bool b => b
  | .int n => decide (n ≠ 0)
  | .float x => !x.isZero
  | .moment _ => true
  | .text s => !s.isEmpty
  | .list vs _ => !vs.isEmpty
  | .map es _ => !es.isEmpty

end Value

end ThemeSheet
