import ThemeSheet.Json.Reader
import ThemeSheet.Proofs.Number.Range
import ThemeSheet.Proofs.Tree.Content

/-!
# What stands in a JSON text

A JSON text has names for keys, and for leaves null, truth values, integers, texts and numbers. The
numbers are those of binary64, since every one of them is rounded when it is read. Moments and marks
do not come from JSON, and of several values under one name the last is kept, so that no name stands
twice.

## Main definitions

* `Content.json`, what JSON has;
* `Json.StepsReadJson`, of the fuel with which the steps of the reader give nothing else.

## Main results

* `Json.stepsReadJson`: the steps of the reader, whatever the fuel is;
* `Json.hasContent_read`: what is read from a text.
-/

namespace ThemeSheet

/-- What JSON has: names, and null, truth values, integers, numbers of binary64 and texts. -/
def Content.json : Content where
  key
    | .text _ => True
    | _ => False
  leaf
    | .float x => x.Bounded
    | .moment _ => False
    | _ => True
  name _ _ := True.intro
  flag _ := True.intro
  version := True.intro

/-- The numbers in a tree as JSON has it are in range. -/
theorem Value.HasContent.inRange_of_at? {tree : Value} {path : Path} {x : Binary64}
    (h : tree.HasContent .json) (hx : tree.at? path = some (.float x)) : x.InRange :=
  have hbounded : x.Bounded := h.at? hx
  hbounded.inRange

namespace Json

/-- A step reads nothing but values as JSON has them. -/
def ReadsJson (step : Step Value) : Prop := ∀ v rest, step = .ok (v, rest) → v.HasContent .json

variable {v : Value}

theorem readsJson_ok (h : v.HasContent .json) (rest : List Char) : ReadsJson (.ok (v, rest)) := by
  intro w left heq
  cases heq
  exact h

theorem readsJson_error (stop : Stop) : ReadsJson (.error stop) := fun _ _ h => by cases h

/-! ### Numbers and words -/

/-- A number with a fraction or an exponent is rounded. -/
theorem readsJson_numberAfter (negative : Bool) (whole rest : List Char) :
    ReadsJson (numberAfter negative whole rest) := by
  unfold numberAfter
  dsimp only
  split
  · split
    · exact readsJson_error _
    · exact readsJson_ok (v := .int _) True.intro _
  · exact readsJson_ok (v := .float _) (Binary64.bounded_ofDecimal _ _ _) _

theorem readsJson_number (cs : List Char) : ReadsJson (number cs) := by
  unfold number
  dsimp only
  split
  · exact readsJson_numberAfter _ _ _
  · split
    · exact readsJson_numberAfter _ _ _
    · exact readsJson_error _
  · exact readsJson_error _

/-- The words stand for leaves. -/
theorem hasContent_of_word? {cs : List Char} {found : Value × List Char}
    (h : word? cs = some found) : found.1.HasContent .json := by
  obtain ⟨entry, hentry, hfound⟩ := List.exists_of_findSome?_eq_some h
  split at hfound
  · cases hfound
    simp only [words, List.mem_cons, List.not_mem_nil, or_false] at hentry
    rcases hentry with rfl | rfl | rfl | rfl | rfl | rfl <;> exact True.intro
  · cases hfound

/-! ### Values -/

/-- With some fuel the steps for values, members and items read nothing but values as JSON has them,
provided that what has been read of a collection before is so. -/
structure StepsReadJson (fuel : Nat) : Prop where
  value : ∀ cs, ReadsJson (Json.value fuel cs)
  members : ∀ done cs, Entries.HaveContent .json done → ReadsJson (Json.members fuel done cs)
  items : ∀ done cs, (∀ item ∈ done, item.HasContent .json) → ReadsJson (Json.items fuel done cs)

namespace StepsReadJson

variable {fuel : Nat}

theorem value_succ (h : StepsReadJson fuel) (cs : List Char) :
    ReadsJson (Json.value (fuel + 1) cs) := by
  unfold Json.value
  split
  · split
    · exact readsJson_ok (v := .text _) True.intro _
    · exact readsJson_error _
  · split
    · exact readsJson_ok (Value.hasContent_map.mpr ⟨rfl, Entries.haveContent_nil⟩) _
    · exact h.members [] _ Entries.haveContent_nil
  · split
    · exact readsJson_ok (Value.hasContent_list.mpr ⟨rfl, List.forall_mem_nil _⟩) _
    · exact h.items [] _ (List.forall_mem_nil _)
  · split
    next found hfound => exact readsJson_ok (hasContent_of_word? hfound) _
    next => exact readsJson_number cs

/-- A member is written among the earlier ones. -/
theorem members_succ (h : StepsReadJson fuel) (cs : List Char) {done : Entries}
    (hdone : done.HaveContent .json) : ReadsJson (Json.members (fuel + 1) done cs) := by
  unfold Json.members
  split
  · split
    · exact readsJson_error _
    · split
      · split
        · exact readsJson_error _
        next v _ hv =>
          have hwritten : ∀ name : String,
              Entries.HaveContent .json (Entries.insert (.text name) v done) :=
            fun name => hdone.insert True.intro (h.value _ _ _ hv)
          dsimp only
          split
          · exact readsJson_ok (Value.hasContent_map.mpr ⟨rfl, hwritten _⟩) _
          · exact h.members _ _ (hwritten _)
          · exact readsJson_error _
      · exact readsJson_error _
  · exact readsJson_error _

theorem items_succ (h : StepsReadJson fuel) (cs : List Char) {done : List Value}
    (hdone : ∀ item ∈ done, item.HasContent .json) :
    ReadsJson (Json.items (fuel + 1) done cs) := by
  unfold Json.items
  split
  · exact readsJson_error _
  next v _ hv =>
    have hread := List.forall_mem_cons.mpr ⟨h.value _ _ _ hv, hdone⟩
    split
    · refine readsJson_ok (Value.hasContent_list.mpr ⟨rfl, fun item hitem => ?_⟩) _
      exact hread item (List.mem_reverse.mp hitem)
    · exact h.items _ _ hread
    · exact readsJson_error _

end StepsReadJson

/-- **The steps read values as JSON has them**, by induction on the fuel. -/
theorem stepsReadJson (fuel : Nat) : StepsReadJson fuel := by
  induction fuel with
  | zero => exact ⟨fun _ => readsJson_error _, fun _ _ _ => readsJson_error _,
      fun _ _ _ => readsJson_error _⟩
  | succ fuel ih =>
    exact ⟨ih.value_succ, fun _ cs hdone => ih.members_succ cs hdone,
      fun _ cs hdone => ih.items_succ cs hdone⟩

/-- **What is read from a JSON text** is a tree as JSON has it. -/
theorem hasContent_read {text : List Char} (h : read text = .ok v) : v.HasContent .json := by
  have hsteps : readSteps text = .ok v := by
    unfold read at h
    split at h
    next hread =>
      cases h
      exact hread
    all_goals cases h
  unfold readSteps at hsteps
  split at hsteps
  · cases hsteps
  · split at hsteps
    · cases hsteps
    next hread =>
      split at hsteps
      · cases hsteps
        exact (stepsReadJson _).value _ _ _ hread
      · cases hsteps

end Json

end ThemeSheet
