import ThemeSheet.Tree.Spelling

/-!
# What a value lists

Where several things are asked for at once, a value lists them: a list by its items, a mapping by
its keys, and a text by its characters. Every other value lists nothing, and asking it is a fault.

A key of a mapping is a value that can be looked up; lists and mappings are values that cannot.

## Main definitions

* `Value.ofKey` and `Value.key?`, which are inverse to each other;
* `Value.listed?`, and `ItemFault` for what has no items or cannot be looked up.
-/

namespace ThemeSheet

namespace Value

/-! ### Keys as values -/

/-- A key as a value. -/
def ofKey : Key → Value
  | .text s => .text s
  | .null => .null
  | .bool b => .bool b
  | .int n => .int n
  | .float x => .float x
  | .moment m => .moment m

/-- The key that a value is; a list and a mapping are none. -/
def key? : Value → Option Key
  | .null => some .null
  | .bool b => some (.bool b)
  | .int n => some (.int n)
  | .float x => some (.float x)
  | .moment m => some (.moment m)
  | .text s => some (.text s)
  | .list _ _ => none
  | .map _ _ => none

@[simp] theorem key?_ofKey (k : Key) : (ofKey k).key? = some k := by
  cases k <;> rfl

theorem ofKey_of_key? {v : Value} {k : Key} (h : v.key? = some k) : ofKey k = v := by
  cases v <;> simp [key?] at h <;> subst h <;> rfl

/-! ### Items -/

/-- What a value lists, if it lists anything. -/
def listed? : Value → Option (List Value)
  | .list items _ => some items
  | .map es _ => some (es.map fun entry => ofKey entry.1)
  | .text s => some (s.toList.map fun c => .text (String.ofList [c]))
  | _ => none

end Value

/-- Why the items of a value are not taken. -/
inductive ItemFault where
  /-- A value of a kind that has no items. -/
  | noItems (kind : String)
  /-- An item of a kind that cannot be looked up. -/
  | noLookup (kind : String)
deriving DecidableEq, Repr

namespace ItemFault

/-- The wording of a fault. -/
def message : ItemFault → String
  | .noItems kind => "'" ++ kind ++ "' object is not iterable"
  | .noLookup kind => "unhashable type: '" ++ kind ++ "'"

end ItemFault

/-- What a value lists, or the fault of asking it. -/
def Value.listed (v : Value) : Except ItemFault (List Value) :=
  match v.listed? with
  | some items => .ok items
  | none => .error (.noItems v.kind)

end ThemeSheet
