import ThemeSheet.Proofs.Tree.Paths
import ThemeSheet.Theme.Merge

/-!
# Laws of overlaying

What stands at a key, and at a path, of one tree overlaid with another. At a key the answer is
`Value.joined`: what the second tree has takes the place of what the first one has, but two mappings
are overlaid in turn, and where the second has nothing the first one stays.

The same holds at a path as long as both trees have nothing but mappings on the way to it. That is
`Value.Open`, and it also says that the keys on the way are distinct, without which the second of
two entries of one key would be taken over, too.

## Main results

* `get?_overlay`: an entry of an overlay;
* `walk?_overlayValue`: a path of an overlay.
-/

namespace ThemeSheet

namespace Value

/-- What an overlay has where the two trees have what is given. -/
def joined (old : Option Value) : Option Value → Option Value
  | none => old
  | some v => some (overlayValue old v)

@[simp] theorem joined_none_right (old : Option Value) : joined old none = old := rfl

@[simp] theorem joined_some_right (old : Option Value) (v : Value) :
    joined old (some v) = some (overlayValue old v) := rfl

@[simp] theorem overlayValue_none (v : Value) : overlayValue none v = v := by
  cases v <;> rfl

@[simp] theorem joined_none_left (new : Option Value) : joined none new = new := by
  cases new with
  | none => rfl
  | some v => simp

@[simp] theorem overlayValue_map_map (base new : Entries) (mark mark' : Option Mark) :
    overlayValue (some (.map base mark)) (.map new mark') = .map (overlay base new) mark := by
  rw [overlayValue]

/-- What is no mapping is replaced, and replaces what was there. -/
theorem overlayValue_of_not_map {v : Value} (h : v.isMap = false) (old : Option Value) :
    overlayValue old v = v := by
  cases v with
  | map es mark => cases h
  | _ => rfl

theorem overlayValue_of_old_not_map {old : Value} (h : old.isMap = false) (v : Value) :
    overlayValue (some old) v = v := by
  cases old with
  | map es mark => cases h
  | _ => cases v <;> rfl

/-- Two mappings are overlaid; in every other case the second value is taken as it is. -/
theorem overlayValue_cases (old : Option Value) (v : Value) :
    (∃ base mark new mark', old = some (.map base mark) ∧ v = .map new mark' ∧
      overlayValue old v = .map (overlay base new) mark) ∨ overlayValue old v = v := by
  cases v with
  | map new mark' =>
    cases old with
    | none => exact .inr (overlayValue_none _)
    | some u =>
      cases u with
      | map base mark => exact .inl ⟨base, mark, new, mark', rfl, rfl, overlayValue_map_map ..⟩
      | _ => exact .inr (overlayValue_of_old_not_map rfl _)
  | _ => exact .inr (overlayValue_of_not_map rfl _)

/-- What is no mapping is found in an overlay only if one of the trees has it. -/
theorem joined_eq_some {old new : Option Value} {w : Value} (h : joined old new = some w)
    (hw : w.isMap = false) : old = some w ∨ new = some w := by
  cases new with
  | none => exact .inl h
  | some v =>
    rw [joined_some_right, Option.some_inj] at h
    rcases overlayValue_cases old v with ⟨base, mark, added, mark', -, -, heq⟩ | heq
    · rw [← h, heq] at hw
      cases hw
    · exact .inr (by rw [← heq, h])

end Value

open Value (joined)

/-! ### Entries of an overlay -/

@[simp] theorem overlay_nil (base : Entries) : overlay base [] = base := by rw [overlay]

theorem overlay_cons (base : Entries) (e : Key × Value) (rest : Entries) :
    overlay base (e :: rest) =
      overlay (Entries.insert e.1 (overlayValue (Entries.get? e.1 base) e.2) base) rest := by
  rw [overlay]

/-- **An entry of an overlay.** -/
theorem get?_overlay {new : Entries} (hd : Entries.Distinct new) (k : Key) (base : Entries) :
    Entries.get? k (overlay base new) = joined (Entries.get? k base) (Entries.get? k new) := by
  induction new generalizing base with
  | nil => rw [overlay_nil]; rfl
  | cons e rest ih =>
    obtain ⟨hne, hd⟩ := Entries.distinct_cons.mp hd
    rw [overlay_cons, ih hd, Entries.get?_insert, Entries.get?_cons]
    by_cases h : k.agrees e.1 = true
    · have hrest : Entries.get? k rest = none :=
        Entries.get?_eq_none_iff.mpr fun f hf => by rw [Key.agrees_congr_left h, hne f hf]
      rw [if_pos h, if_pos h, hrest, Entries.get?_congr h]
      rfl
    · rw [if_neg h, if_neg h]

theorem named?_overlay {new : Entries} (hd : Entries.Distinct new) (name : String)
    (base : Entries) : Entries.named? name (overlay base new) =
      joined (Entries.named? name base) (Entries.named? name new) :=
  get?_overlay hd (.text name) base

theorem overlay_ne_nil_of_base {base : Entries} (h : base ≠ []) (new : Entries) :
    overlay base new ≠ [] := by
  induction new generalizing base with
  | nil => simpa using h
  | cons e rest ih =>
    rw [overlay_cons]
    exact ih (Entries.insert_ne_nil _ _ _)

/-- Overlaying nothing with a tree gives the tree. -/
theorem overlay_empty {new : Entries} (hd : Entries.Distinct new) : overlay [] new = new := by
  suffices h : ∀ (done rest : Entries), Entries.Distinct (done ++ rest) →
      overlay done rest = done ++ rest from h [] new hd
  intro done rest hd
  induction rest generalizing done with
  | nil => simp
  | cons e rest ih =>
    have hnone : Entries.get? e.1 done = none := by
      refine Entries.get?_eq_none_iff.mpr fun f hf => ?_
      rw [Key.agrees_comm]
      exact (List.pairwise_append.mp hd).2.2 f hf e List.mem_cons_self
    rw [overlay_cons, hnone, Value.overlayValue_none, Entries.insert_of_get?_eq_none hnone,
      ih _ (by simpa using hd), List.append_assoc]
    rfl

/-- The items of an overlay are those of the new value. -/
theorem Value.items?_overlayValue (old : Option Value) (v : Value) :
    (overlayValue old v).items? = v.items? := by
  rcases overlayValue_cases old v with ⟨base, mark, inner, mark', rfl, rfl, heq⟩ | heq
  · rw [heq]
    rfl
  · rw [heq]

/-! ### Paths of an overlay -/

namespace Value

/-- On the way of a path there are mappings only, whose keys are distinct. What stands at its end
is left open. -/
def Open : Path → Value → Prop
  | [], _ => True
  | name :: rest, v => ∃ es mark, v = .map es mark ∧ Entries.Distinct es ∧
      ∀ w, Entries.named? name es = some w → Open rest w

theorem open_cons_map {name : String} {rest : Path} {es : Entries} {mark : Option Mark} :
    Open (name :: rest) (.map es mark) ↔
      Entries.Distinct es ∧ ∀ w, Entries.named? name es = some w → Open rest w := by
  constructor
  · rintro ⟨fs, m, heq, hd, hrest⟩
    cases heq
    exact ⟨hd, hrest⟩
  · rintro ⟨hd, hrest⟩
    exact ⟨es, mark, rfl, hd, hrest⟩

/-- **A path of an overlay.** -/
theorem walk?_overlayValue {p : Path} {base new : Value} (hb : Open p base) (hn : Open p new) :
    (overlayValue (some base) new).walk? p = joined (base.walk? p) (new.walk? p) := by
  induction p generalizing base new with
  | nil => rfl
  | cons name rest ih =>
    obtain ⟨bs, m, rfl, -, hb⟩ := hb
    obtain ⟨ns, m', rfl, hd, hn⟩ := hn
    rw [overlayValue_map_map, walk?_cons_map, walk?_cons_map, walk?_cons_map, named?_overlay hd]
    cases hns : Entries.named? name ns with
    | none => simp
    | some w =>
      cases hbs : Entries.named? name bs with
      | none => simp
      | some b => exact ih (hb b hbs) (hn w hns)

end Value

end ThemeSheet
