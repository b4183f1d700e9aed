import ThemeSheet.Proofs.Tree.Entries
import ThemeSheet.Tree.Path

/-!
# Laws of paths

Reading at one path after writing or removing at another. Two paths can stand to each other in three
ways: one is the beginning of the other, or the other of the one, or they part somewhere on the way.
The last is `Path.Diverges`, and there the two never touch: that holds also where writing puts a
mapping in the place of something that was none, because nothing could be read through that before.

## Main results

* `Value.walk?_setEntries_self`, `walk?_setEntries_append`: reading where, and before where, a value
  was written;
* `Value.walk?_setEntries_of_diverges`, `walk?_unsetEntries_of_diverges`: the frame laws.
-/

namespace ThemeSheet

namespace Path

/-- Neither path is a beginning of the other. -/
def Diverges (p q : Path) : Prop := ¬ p <+: q ∧ ¬ q <+: p

instance (p q : Path) : Decidable (Diverges p q) := inferInstanceAs (Decidable (_ ∧ _))

@[simp] theorem not_diverges_nil_left (q : Path) : ¬ Diverges [] q := fun h => h.1 List.nil_prefix

@[simp] theorem not_diverges_nil_right (p : Path) : ¬ Diverges p [] := fun h => h.2 List.nil_prefix

@[simp] theorem diverges_cons_cons {a b : String} {p q : Path} :
    Diverges (a :: p) (b :: q) ↔ a ≠ b ∨ Diverges p q := by
  unfold Diverges
  rw [List.cons_prefix_cons, List.cons_prefix_cons, eq_comm (a := b)]
  by_cases h : a = b <;> simp [h]

/-- Paths below a common beginning diverge if what is below does. -/
@[simp] theorem diverges_append_left (common : Path) {p q : Path} :
    Diverges (common ++ p) (common ++ q) ↔ Diverges p q := by
  unfold Diverges
  rw [List.prefix_append_right_inj, List.prefix_append_right_inj]

/-- Paths that have parted never meet again. -/
theorem Diverges.append {p q : Path} (h : Diverges p q) (p' q' : Path) :
    Diverges (p ++ p') (q ++ q') := by
  constructor <;> intro hpre
  · rcases List.prefix_or_prefix_of_prefix ((List.prefix_append p p').trans hpre)
      (List.prefix_append q q') with hpq | hpq
    · exact h.1 hpq
    · exact h.2 hpq
  · rcases List.prefix_or_prefix_of_prefix ((List.prefix_append q q').trans hpre)
      (List.prefix_append p p') with hpq | hpq
    · exact h.2 hpq
    · exact h.1 hpq

end Path

namespace Value

open ThemeSheet.Path (Diverges)

variable {es : Entries} {v w : Value} {p q : Path} {name : String}

/-! ### Walks -/

@[simp] theorem walk?_nil (v : Value) : v.walk? [] = some v := rfl

@[simp] theorem walk?_cons_map (name : String) (rest : Path) (es : Entries) (mark : Option Mark) :
    walk? (name :: rest) (.map es mark) = (Entries.named? name es).bind (walk? rest) := rfl

@[simp] theorem walk?_singleton_map (name : String) (es : Entries) (mark : Option Mark) :
    walk? [name] (.map es mark) = Entries.named? name es := by
  cases h : Entries.named? name es <;> simp [h]

theorem walk?_singleton (name : String) (v : Value) : walk? [name] v = v.entryNamed? name := by
  rw [walk?]
  cases h : v.entryNamed? name <;> rfl

theorem walk?_cons (name : String) (rest : Path) (v : Value) :
    walk? (name :: rest) v = (v.entryNamed? name).bind (walk? rest) := rfl

theorem at?_of_ne_nil (h : p ≠ []) (v : Value) : v.at? p = v.walk? p := by
  rw [at?, if_neg (by simpa using h)]

@[simp] theorem at?_cons (name : String) (rest : Path) (v : Value) :
    v.at? (name :: rest) = v.walk? (name :: rest) := rfl

/-- Nothing stands at the empty path. -/
theorem ne_nil_of_at? (h : v.at? p = some w) : p ≠ [] := by
  rintro rfl
  cases h

theorem walk?_of_at? (h : v.at? p = some w) : v.walk? p = some w := by
  rwa [at?_of_ne_nil (ne_nil_of_at? h)] at h

theorem at?_append (h : p ≠ []) (q : Path) (v : Value) :
    v.at? (p ++ q) = (v.at? p).bind (walk? q) := by
  rw [at?_of_ne_nil (by simp [h]), at?_of_ne_nil h, walk?_append]

/-- A walk that gets anywhere starts from a mapping. -/
theorem exists_map_of_walk? {rest : Path} (h : v.walk? (name :: rest) = some w) :
    ∃ es mark, v = .map es mark := by
  cases v with
  | map es mark => exact ⟨es, mark, rfl⟩
  | _ => cases h

/-- A walk that gets to a mapping starts from one. -/
theorem exists_map_of_walk?_map {mark : Option Mark} (h : v.walk? p = some (.map es mark)) :
    ∃ fs m, v = .map fs m := by
  cases p with
  | nil => exact ⟨es, mark, Option.some.inj h⟩
  | cons name rest => exact exists_map_of_walk? h

/-- Where a mapping is wanted and there is none, the empty one has as many paths. -/
theorem walk?_orEmptyMap (name : String) (rest : Path) (o : Option Value) :
    (orEmptyMap o).walk? (name :: rest) = o.bind (walk? (name :: rest)) := by
  match o with
  | none => rfl
  | some (.map es mark) => rfl
  | some .null => rfl
  | some (.bool b) => rfl
  | some (.int n) => rfl
  | some (.float x) => rfl
  | some (.moment m) => rfl
  | some (.text s) => rfl
  | some (.list vs mark) => rfl

/-- What stands where a mapping is wanted is one. -/
theorem exists_orEmptyMap_eq (o : Option Value) : ∃ es mark, orEmptyMap o = .map es mark := by
  match o with
  | none => exact ⟨_, _, rfl⟩
  | some (.map es mark) => exact ⟨_, _, rfl⟩
  | some .null => exact ⟨_, _, rfl⟩
  | some (.bool b) => exact ⟨_, _, rfl⟩
  | some (.int n) => exact ⟨_, _, rfl⟩
  | some (.float x) => exact ⟨_, _, rfl⟩
  | some (.moment m) => exact ⟨_, _, rfl⟩
  | some (.text s) => exact ⟨_, _, rfl⟩
  | some (.list vs mark) => exact ⟨_, _, rfl⟩

/-! ### Reading after writing -/

@[simp] theorem setEntries_singleton (name : String) (v : Value) (es : Entries) :
    setEntries [name] v es = Entries.insert (.text name) v es := rfl

theorem setEntries_cons_cons (a b : String) (rest : Path) (v : Value) (es : Entries) :
    setEntries (a :: b :: rest) v es = Entries.insert (.text a)
      ((orEmptyMap (Entries.named? a es)).onMap (setEntries (b :: rest) v)) es := rfl

/-- Writing below a name writes into the mapping under it. -/
theorem setEntries_cons (h : q ≠ []) (v : Value) (es : Entries) :
    setEntries (name :: q) v es = Entries.insert (.text name)
      ((orEmptyMap (Entries.named? name es)).onMap (setEntries q v)) es := by
  cases q with
  | nil => exact absurd rfl h
  | cons b rest => rfl

theorem setEntries_ne_nil (h : p ≠ []) (v : Value) (es : Entries) : setEntries p v es ≠ [] := by
  match p with
  | [] => exact absurd rfl h
  | [name] => exact Entries.insert_ne_nil _ _ _
  | a :: b :: rest => exact Entries.insert_ne_nil _ _ _

/-- **Read after write.** -/
theorem walk?_setEntries_self (h : p ≠ []) (v : Value) (es : Entries) (mark : Option Mark) :
    walk? p (.map (setEntries p v es) mark) = some v := by
  induction p generalizing es mark with
  | nil => exact absurd rfl h
  | cons a rest ih =>
    cases rest with
    | nil => simp
    | cons b rest =>
      obtain ⟨fs, m, hfs⟩ := exists_orEmptyMap_eq (Entries.named? a es)
      rw [setEntries_cons_cons, walk?_cons_map, Entries.named?_insert, if_pos rfl, hfs]
      exact ih (by simp) fs m

/-- **Writing what is there already changes nothing.** -/
theorem setEntries_of_walk? {mark : Option Mark} (h : walk? p (.map es mark) = some v) :
    setEntries p v es = es := by
  induction p generalizing es mark with
  | nil => rfl
  | cons a rest ih =>
    rw [walk?_cons_map, Option.bind_eq_some_iff] at h
    obtain ⟨w, hw, h⟩ := h
    cases rest with
    | nil =>
      cases h
      exact Entries.insert_of_get? hw
    | cons b rest =>
      obtain ⟨fs, m, rfl⟩ := exists_map_of_walk? h
      rw [setEntries_cons_cons, hw, orEmptyMap, onMap, ih h]
      exact Entries.insert_of_get? hw

/-- **Read before where was written.** The mapping on the way is the one that was there, with the
rest of the path written into it. -/
theorem walk?_setEntries_append (hp : p ≠ []) (hq : q ≠ []) (v : Value) (es : Entries)
    (mark : Option Mark) :
    walk? p (.map (setEntries (p ++ q) v es) mark) =
      some ((orEmptyMap (walk? p (.map es mark))).onMap (setEntries q v)) := by
  induction p generalizing es mark with
  | nil => exact absurd rfl hp
  | cons a rest ih =>
    rw [List.cons_append, setEntries_cons (by simp [hq]), walk?_cons_map, Entries.named?_insert,
      if_pos rfl]
    cases rest with
    | nil => cases h : Entries.named? a es <;> simp [h]
    | cons b rest =>
      obtain ⟨fs, m, hfs⟩ := exists_orEmptyMap_eq (Entries.named? a es)
      rw [walk?_cons_map, ← walk?_orEmptyMap b rest (Entries.named? a es), hfs]
      exact ih (by simp) fs m

/-- **Frame.** Nothing changes off the way of what is written. -/
theorem walk?_setEntries_of_diverges (h : Diverges p q) (v : Value) (es : Entries)
    (mark : Option Mark) :
    walk? q (.map (setEntries p v es) mark) = walk? q (.map es mark) := by
  induction p generalizing q es mark with
  | nil => exact absurd h (by simp)
  | cons a p ih =>
    cases q with
    | nil => exact absurd h (by simp)
    | cons b q =>
      by_cases hab : b = a
      · subst hab
        have hpq : Diverges p q := by simpa using h
        match p, q with
        | [], _ => exact absurd hpq (by simp)
        | _, [] => exact absurd hpq (by simp)
        | c :: p, d :: q =>
          obtain ⟨fs, m, hfs⟩ := exists_orEmptyMap_eq (Entries.named? b es)
          rw [setEntries_cons_cons, walk?_cons_map, walk?_cons_map, Entries.named?_insert,
            if_pos rfl, ← walk?_orEmptyMap d q (Entries.named? b es), hfs]
          exact ih hpq fs m
      · match p with
        | [] => simp [hab]
        | c :: p => rw [setEntries_cons_cons]; simp [hab]

/-! ### Reading after removing -/

theorem unsetEntries_cons_cons (a b : String) (rest : Path) (es : Entries) :
    unsetEntries (a :: b :: rest) es = Entries.modifyMap a (unsetEntries (b :: rest)) es := rfl

/-- **Frame.** Nothing changes off the way of what is removed. -/
theorem walk?_unsetEntries_of_diverges (h : Diverges p q) (es : Entries) (mark : Option Mark) :
    walk? q (.map (unsetEntries p es) mark) = walk? q (.map es mark) := by
  induction p generalizing q es mark with
  | nil => exact absurd h (by simp)
  | cons a p ih =>
    cases q with
    | nil => exact absurd h (by simp)
    | cons b q =>
      by_cases hab : b = a
      · subst hab
        have hpq : Diverges p q := by simpa using h
        match p, q with
        | [], _ => exact absurd hpq (by simp)
        | _, [] => exact absurd hpq (by simp)
        | c :: p, d :: q =>
          rw [unsetEntries_cons_cons, walk?_cons_map, walk?_cons_map, Entries.named?_modifyMap,
            if_pos rfl]
          cases Entries.named? b es with
          | none => rfl
          | some v =>
            cases v with
            | map fs m => exact ih hpq fs m
            | _ => rfl
      · match p with
        | [] =>
          have herase : Entries.named? b (Entries.erase (.text a) es) = Entries.named? b es :=
            Entries.get?_erase_of_not_agrees (by simpa using hab) es
          simp only [walk?_cons_map, unsetEntries, herase]
        | c :: p =>
          rw [unsetEntries_cons_cons, walk?_cons_map, walk?_cons_map, Entries.named?_modifyMap,
            if_neg hab]

/-! ### Trees -/

theorem at?_set_self (h : p ≠ []) (v : Value) (es : Entries) (mark : Option Mark) :
    (set p (.map es mark) v).at? p = some v := by
  rw [at?_of_ne_nil h]
  exact walk?_setEntries_self h v es mark

theorem at?_set_append (hp : p ≠ []) (hq : q ≠ []) (v : Value) (es : Entries)
    (mark : Option Mark) :
    (set (p ++ q) (.map es mark) v).at? p =
      some ((orEmptyMap ((Value.map es mark).at? p)).onMap (setEntries q v)) := by
  rw [at?_of_ne_nil hp, at?_of_ne_nil hp]
  exact walk?_setEntries_append hp hq v es mark

/-- Nothing changes off the way of what is written, whatever the tree is. -/
theorem at?_set_of_diverges (h : Diverges p q) (tree v : Value) :
    (set p tree v).at? q = tree.at? q := by
  have hq : q ≠ [] := by rintro rfl; exact absurd h (by simp)
  rw [at?_of_ne_nil hq, at?_of_ne_nil hq]
  cases tree with
  | map es mark => exact walk?_setEntries_of_diverges h v es mark
  | _ => rfl

/-- A part of a tree is read at the paths below its own; where it is missing there is nothing. -/
theorem at?_getD_emptyMap (hp : p ≠ []) (hq : q ≠ []) (tree : Value) :
    (tree.getD p .emptyMap).at? q = tree.at? (p ++ q) := by
  rw [at?_append hp, getD, at?_of_ne_nil hq]
  cases tree.at? p with
  | none =>
    cases q with
    | nil => exact absurd rfl hq
    | cons name rest => rfl
  | some v => rfl

/-- What a path holds, unless it is null. -/
theorem solid?_eq (path : Path) (tree : Value) :
    tree.solid? path = (tree.at? path).filter fun v => !v.isNull := by
  rw [solid?, lookup]
  cases tree.at? path with
  | none => rfl
  | some v => cases v <;> rfl

theorem solid?_eq_some_iff {path : Path} {tree : Value} :
    tree.solid? path = some v ↔ tree.at? path = some v ∧ v.isNull = false := by
  rw [solid?_eq, Option.filter_eq_some_iff]
  simp

theorem solid?_congr {t t' : Value} (h : t.at? p = t'.at? p) : t.solid? p = t'.solid? p := by
  rw [solid?_eq, solid?_eq, h]

/-- Writing what a path holds changes nothing. -/
theorem set_of_at? {tree : Value} (h : tree.at? p = some v) : tree.set p v = tree := by
  cases tree with
  | map es mark =>
    cases p with
    | nil => cases h
    | cons name rest => rw [set, onMap, setEntries_of_walk? h]
  | _ => rfl

end Value

end ThemeSheet
