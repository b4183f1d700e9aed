import ThemeSheet.Tree.Basic

/-!
# Deciding whether trees are the same

Two trees are the same if they are built alike: the entries of mappings in the same order, and the
same marks. This is finer than the equality of the values that they stand for, and it is what proofs
mean by equality. Since it can be decided, what a pass makes of a given tree can be computed.

## Main definitions

* `Value.decEq`, the instance of `DecidableEq Value`.
-/

namespace ThemeSheet.Value

mutual

/-- Whether two values are the same. -/
def decEq (v w : Value) : Decidable (v = w) :=
  if h : v.ctorIdx = w.ctorIdx then
    match v, w, h with
    | .null, .null, _ => isTrue rfl
    | .bool a, .bool b, _ => decidable_of_iff (a = b) (by simp)
    | .int a, .int b, _ => decidable_of_iff (a = b) (by simp)
    | .float a, .float b, _ => decidable_of_iff (a = b) (by simp)
    | .moment a, .moment b, _ => decidable_of_iff (a = b) (by simp)
    | .text a, .text b, _ => decidable_of_iff (a = b) (by simp)
    | .list vs mark, .list ws mark', _ =>
      have := decEqItems vs ws
      decidable_of_iff (vs = ws ∧ mark = mark') (by simp)
    | .map es mark, .map fs mark', _ =>
      have := decEqEntries es fs
      decidable_of_iff (es = fs ∧ mark = mark') (by simp)
  else isFalse fun heq => h (congrArg Value.ctorIdx heq)

/-- Whether two lists of items are the same. -/
def decEqItems : (vs ws : List Value) → Decidable (vs = ws)
  | [], [] => isTrue rfl
  | [], _ :: _ | _ :: _, [] => isFalse nofun
  | v :: vs, w :: ws =>
    have := decEq v w
    have := decEqItems vs ws
    decidable_of_iff (v = w ∧ vs = ws) (by simp)

/-- Whether two lists of entries are the same. -/
def decEqEntries : (es fs : List (Key × Value)) → Decidable (es = fs)
  | [], [] => isTrue rfl
  | [], _ :: _ | _ :: _, [] => isFalse nofun
  | (k, v) :: es, (l, w) :: fs =>
    have := decEq v w
    have := decEqEntries es fs
    decidable_of_iff (k = l ∧ v = w ∧ es = fs) (by simp [and_assoc])

end

instance : DecidableEq Value := decEq

end ThemeSheet.Value

namespace ThemeSheet

/-- Whether two results are the same. -/
instance decEqResult {ε α : Type} [DecidableEq ε] [DecidableEq α] : DecidableEq (Except ε α)
  | .error e, .error f => decidable_of_iff (e = f) (by simp)
  | .ok a, .ok b => decidable_of_iff (a = b) (by simp)
  | .error _, .ok _ | .ok _, .error _ => isFalse nofun

end ThemeSheet
