import ThemeSheet.Tree.Children

/-!
# Laws of entries

What reading, writing and removing an entry have to do with each other. Keys are compared by
`Key.agrees` throughout, so the laws are stated for keys that agree and not only for equal ones;
their forms for names, of which each agrees with itself alone, are stated beside them.

Most laws hold of any list of entries. Those that say that an entry is *gone*, or that read an entry
off the list by membership, need `Entries.Distinct`: of two entries with one key only the first is
ever seen.

## Main results

* `Entries.get?_insert`, `get?_erase`: reading after writing and after removing;
* `Entries.insert_of_get?`: writing what is there already changes nothing;
* `Entries.mem_of_get?`, `get?_of_mem`: reading is membership, where keys are distinct;
* `Entries.named?_modifyMap`, `get?_mapEach`: changes in place.
-/

namespace ThemeSheet

namespace Key

@[simp] theorem text_agrees_text (a b : String) :
    (Key.text a).agrees (Key.text b) = decide (a = b) := by
  by_cases h : a = b
  · subst h; simp
  · rw [decide_eq_false h, Bool.eq_false_iff]
    intro hab
    cases text_agrees_iff.mp hab
    exact h rfl

/-- Keys that agree with each other agree with the same keys. -/
theorem agrees_congr {a b : Key} (h : a.agrees b = true) (k : Key) : k.agrees a = k.agrees b := by
  simp only [agrees, decide_eq_true_eq] at h ⊢
  rw [h]

theorem agrees_congr_left {a b : Key} (h : a.agrees b = true) (k : Key) :
    a.agrees k = b.agrees k := by
  rw [agrees_comm a k, agrees_comm b k, agrees_congr h]

end Key

namespace Entries

variable {es : Entries} {key k : Key} {v w : Value} {name other : String}

/-! ### Reading -/

@[simp] theorem get?_nil (key : Key) : get? key [] = none := rfl

@[simp] theorem get?_cons (key : Key) (e : Key × Value) (es : Entries) :
    get? key (e :: es) = if key.agrees e.1 then some e.2 else get? key es := rfl

@[simp] theorem named?_nil (name : String) : named? name [] = none := rfl

theorem get?_congr (h : key.agrees k = true) (es : Entries) : get? key es = get? k es := by
  induction es with
  | nil => rfl
  | cons e es ih => rw [get?_cons, get?_cons, Key.agrees_congr_left h, ih]

theorem get?_eq_none_iff : get? key es = none ↔ ∀ e ∈ es, key.agrees e.1 = false := by
  induction es with
  | nil => simp
  | cons e es ih =>
    rw [get?_cons, List.forall_mem_cons]
    by_cases h : key.agrees e.1 = true
    · simp [h]
    · simp [h, ih]

theorem mem_of_get? (h : get? key es = some v) : ∃ k, key.agrees k = true ∧ (k, v) ∈ es := by
  induction es with
  | nil => cases h
  | cons e es ih =>
    rw [get?_cons] at h
    split at h
    next hk => cases h; exact ⟨e.1, hk, List.mem_cons_self⟩
    next =>
      obtain ⟨k, hk, hm⟩ := ih h
      exact ⟨k, hk, List.mem_cons_of_mem _ hm⟩

/-- The entry found under a name has that very name. -/
theorem mem_of_named? (h : named? name es = some v) : (.text name, v) ∈ es := by
  obtain ⟨k, hk, hm⟩ := mem_of_get? h
  rwa [Key.text_agrees_iff.mp hk] at hm

/-- The value of an entry is smaller than the entries. -/
theorem sizeOf_lt_of_mem (h : (k, v) ∈ es) : sizeOf v < sizeOf es := by
  have hentry := List.sizeOf_lt_of_mem h
  rw [Prod.mk.sizeOf_spec] at hentry
  omega

/-- What is in the mapping under a name is smaller than the entries. -/
theorem sizeOf_lt_of_named? {inner : Entries} {mark : Option Mark}
    (h : named? name es = some (.map inner mark)) : sizeOf inner < sizeOf es := by
  have hentry := sizeOf_lt_of_mem (mem_of_named? h)
  rw [Value.map.sizeOf_spec inner mark] at hentry
  omega

/-- Which keys are found is a matter of the keys. -/
theorem isSome_get?_of_keys {fs : Entries} (h : es.map Prod.fst = fs.map Prod.fst) (key : Key) :
    (get? key es).isSome = (get? key fs).isSome := by
  induction es generalizing fs with
  | nil => rw [List.map_eq_nil_iff.mp h.symm]
  | cons e es ih =>
    cases fs with
    | nil => cases h
    | cons f fs =>
      obtain ⟨hkey, hkeys⟩ := List.cons_eq_cons.mp h
      rw [get?_cons, get?_cons, hkey]
      split
      · rfl
      · exact ih hkeys

theorem exists_get?_of_keys {fs : Entries} (h : es.map Prod.fst = fs.map Prod.fst)
    (hv : get? key es = some v) : ∃ w, get? key fs = some w := by
  rw [← Option.isSome_iff_exists, ← isSome_get?_of_keys h, hv]
  rfl

theorem get?_eq_none_of_keys {fs : Entries} (h : es.map Prod.fst = fs.map Prod.fst)
    (hnone : get? key es = none) : get? key fs = none := by
  rw [← Option.not_isSome_iff_eq_none, ← isSome_get?_of_keys h, hnone]
  exact Bool.false_ne_true

/-! ### Distinct keys -/

instance (es : Entries) : Decidable (Distinct es) := by
  unfold Distinct; infer_instance

@[simp] theorem distinct_nil : Distinct [] := List.Pairwise.nil

theorem distinct_cons {e : Key × Value} :
    Distinct (e :: es) ↔ (∀ f ∈ es, e.1.agrees f.1 = false) ∧ Distinct es := List.pairwise_cons

/-- Distinctness is a matter of the keys. -/
theorem distinct_iff_keys : Distinct es ↔
    (es.map Prod.fst).Pairwise fun a b => a.agrees b = false := by
  rw [List.pairwise_map]
  rfl

theorem distinct_congr {fs : Entries} (h : es.map Prod.fst = fs.map Prod.fst) :
    Distinct es ↔ Distinct fs := by
  rw [distinct_iff_keys, distinct_iff_keys, h]

theorem Distinct.sublist {fs : Entries} (h : Distinct fs) (hs : es.Sublist fs) : Distinct es :=
  List.Pairwise.sublist hs h

/-- **Reading is membership.** -/
theorem get?_of_mem (hd : Distinct es) (h : (k, v) ∈ es) : get? k es = some v := by
  induction es with
  | nil => cases h
  | cons e es ih =>
    obtain ⟨hne, hd⟩ := distinct_cons.mp hd
    rw [get?_cons]
    rcases List.mem_cons.mp h with rfl | h
    · rw [if_pos (Key.agrees_self k)]
    · rw [if_neg (by rw [Key.agrees_comm, hne _ h]; decide), ih hd h]

/-- Entries are told by their keys and by what is found under them. -/
theorem ext_get? {fs : Entries} (hd : Distinct es) (hkeys : es.map Prod.fst = fs.map Prod.fst)
    (h : ∀ k, get? k es = get? k fs) : es = fs := by
  induction es generalizing fs with
  | nil => exact (List.map_eq_nil_iff.mp hkeys.symm).symm
  | cons e es ih =>
    cases fs with
    | nil => cases hkeys
    | cons f fs =>
      obtain ⟨hnef, -⟩ := distinct_cons.mp ((distinct_congr hkeys).mp hd)
      obtain ⟨hne, hd⟩ := distinct_cons.mp hd
      obtain ⟨hkey, htail⟩ := List.cons_eq_cons.mp hkeys
      have hhead : e = f := by
        have heq := h e.1
        rw [get?_cons, get?_cons, ← hkey, if_pos (Key.agrees_self _), if_pos (Key.agrees_self _)]
          at heq
        exact Prod.ext hkey (Option.some.inj heq)
      subst hhead
      refine congrArg (e :: ·) (ih hd htail fun k => ?_)
      by_cases hk : k.agrees e.1 = true
      · rw [get?_congr hk, get?_congr hk, get?_eq_none_iff.mpr hne, get?_eq_none_iff.mpr hnef]
      · have heq := h k
        rwa [get?_cons, get?_cons, if_neg hk, if_neg hk] at heq

/-! ### Writing -/

/-- **Read after write.** -/
theorem get?_insert (k key : Key) (v : Value) (es : Entries) :
    get? k (insert key v es) = if k.agrees key then some v else get? k es := by
  induction es with
  | nil => rfl
  | cons e es ih =>
    rw [insert]
    split
    next h =>
      rw [get?_cons, get?_cons, Key.agrees_congr h]
      split <;> rfl
    next h =>
      rw [get?_cons, get?_cons, ih]
      by_cases hk : k.agrees e.1 = true
      · have hne : k.agrees key = false := by
          rw [Bool.eq_false_iff]
          intro hkey
          exact h (Key.agrees_trans (by rwa [Key.agrees_comm]) hk)
        simp [hk, hne]
      · simp [hk]

@[simp] theorem named?_insert (name other : String) (v : Value) (es : Entries) :
    named? name (insert (.text other) v es) = if name = other then some v else named? name es := by
  rw [named?, get?_insert, Key.text_agrees_text]
  simp [named?]

@[simp] theorem insert_ne_nil (key : Key) (v : Value) (es : Entries) : insert key v es ≠ [] := by
  cases es with
  | nil => simp [insert]
  | cons e es =>
    rw [insert]
    split <;> simp

/-- The keys after writing are those that were there, and a new one behind them. -/
theorem keys_insert (key : Key) (v : Value) (es : Entries) :
    (insert key v es).map Prod.fst =
      if (get? key es).isSome then es.map Prod.fst else es.map Prod.fst ++ [key] := by
  induction es with
  | nil => rfl
  | cons e es ih =>
    rw [insert, get?_cons]
    split
    · rfl
    · rw [List.map_cons, ih]
      split <;> rfl

/-- A new key goes to the end. -/
theorem insert_of_get?_eq_none (h : get? key es = none) (v : Value) :
    insert key v es = es ++ [(key, v)] := by
  induction es with
  | nil => rfl
  | cons e es ih =>
    rw [get?_cons] at h
    split at h
    · cases h
    next hk => rw [insert, if_neg hk, ih h, List.cons_append]

/-- **Writing what is there already changes nothing.** -/
theorem insert_of_get? (h : get? key es = some v) : insert key v es = es := by
  induction es with
  | nil => cases h
  | cons e es ih =>
    rw [get?_cons] at h
    rw [insert]
    split at h
    next hk => cases h; rw [if_pos hk]
    next hk => rw [if_neg hk, ih h]

/-- What is written last is what is there. -/
theorem insert_insert (key : Key) (v w : Value) (es : Entries) :
    insert key v (insert key w es) = insert key v es := by
  induction es with
  | nil => exact if_pos (Key.agrees_self key)
  | cons e es ih =>
    rw [insert]
    split
    next hk => rw [insert, if_pos hk, insert, if_pos hk]
    next hk => rw [insert, if_neg hk, ih, insert, if_neg hk]

theorem mem_insert {e : Key × Value} (h : e ∈ insert key v es) :
    (key.agrees e.1 = true ∧ e.2 = v) ∨ e ∈ es := by
  induction es with
  | nil => cases List.mem_singleton.mp h; exact .inl ⟨Key.agrees_self key, rfl⟩
  | cons f es ih =>
    rw [insert] at h
    split at h
    next hk =>
      rcases List.mem_cons.mp h with rfl | h
      · exact .inl ⟨hk, rfl⟩
      · exact .inr (List.mem_cons_of_mem _ h)
    next =>
      rcases List.mem_cons.mp h with rfl | h
      · exact .inr List.mem_cons_self
      · exact (ih h).imp_right (List.mem_cons_of_mem _)

theorem Distinct.insert (h : Distinct es) (key : Key) (v : Value) :
    Distinct (Entries.insert key v es) := by
  induction es with
  | nil => exact List.pairwise_singleton _ _
  | cons e es ih =>
    obtain ⟨hne, hd⟩ := distinct_cons.mp h
    rw [Entries.insert]
    split
    · exact distinct_cons.mpr ⟨hne, hd⟩
    next hk =>
      refine distinct_cons.mpr ⟨fun f hf => ?_, ih hd⟩
      rcases mem_insert hf with ⟨hkf, _⟩ | hf
      · rw [← Key.agrees_congr hkf, Key.agrees_comm]
        simpa using hk
      · exact hne f hf

/-! ### Removing -/

theorem erase_sublist (key : Key) (es : Entries) : (erase key es).Sublist es := by
  induction es with
  | nil => exact List.Sublist.slnil
  | cons e es ih =>
    rw [erase]
    split
    · exact List.sublist_cons_self e es
    · exact ih.cons_cons e

/-- Removing what is not there changes nothing. -/
theorem erase_of_get?_eq_none (h : get? key es = none) : erase key es = es := by
  induction es with
  | nil => rfl
  | cons e es ih =>
    rw [get?_cons] at h
    split at h
    · cases h
    next hk => rw [erase, if_neg hk, ih h]

/-- Removing what was new leaves what was there. -/
theorem erase_insert_of_get?_eq_none (h : get? key es = none) (v : Value) :
    erase key (insert key v es) = es := by
  induction es with
  | nil => exact if_pos (Key.agrees_self key)
  | cons e es ih =>
    rw [get?_cons] at h
    split at h
    · cases h
    next hk => rw [insert, if_neg hk, erase, if_neg hk, ih h]

theorem Distinct.erase (h : Distinct es) (key : Key) : Distinct (Entries.erase key es) :=
  h.sublist (erase_sublist key es)

/-- **Read after removal.** -/
theorem get?_erase (hd : Distinct es) (k key : Key) :
    get? k (erase key es) = if k.agrees key then none else get? k es := by
  induction es with
  | nil => simp [erase]
  | cons e es ih =>
    obtain ⟨hne, hd⟩ := distinct_cons.mp hd
    rw [erase]
    split
    next h =>
      rw [get?_cons, Key.agrees_congr h]
      split
      next hk =>
        exact get?_eq_none_iff.mpr fun f hf => by rw [Key.agrees_congr_left hk, hne f hf]
      · rfl
    next h =>
      rw [get?_cons, get?_cons, ih hd]
      by_cases hk : k.agrees e.1 = true
      · have hkey : k.agrees key = false := by
          rw [Bool.eq_false_iff]
          intro hkey
          exact h (Key.agrees_trans (by rwa [Key.agrees_comm]) hk)
        simp [hk, hkey]
      · simp [hk]

/-- Removing a key leaves the others, whether or not keys are distinct. -/
theorem get?_erase_of_not_agrees (h : k.agrees key = false) (es : Entries) :
    get? k (erase key es) = get? k es := by
  induction es with
  | nil => rfl
  | cons e es ih =>
    rw [erase]
    split
    next he =>
      have hk : k.agrees e.1 = false := by rwa [← Key.agrees_congr he]
      rw [get?_cons, hk]
      rfl
    next => rw [get?_cons, get?_cons, ih]

theorem named?_erase (hd : Distinct es) (name other : String) :
    named? name (erase (.text other) es) = if name = other then none else named? name es := by
  rw [named?, get?_erase hd, Key.text_agrees_text]
  simp [named?]

/-! ### Changes in place -/

theorem keys_modifyMap (name : String) (f : Entries → Entries) (es : Entries) :
    (modifyMap name f es).map Prod.fst = es.map Prod.fst := by
  induction es with
  | nil => rfl
  | cons e es ih =>
    rw [modifyMap]
    split
    · rfl
    · rw [List.map_cons, List.map_cons, ih]

theorem named?_modifyMap (name other : String) (f : Entries → Entries) (es : Entries) :
    named? name (modifyMap other f es) =
      if name = other then (named? name es).map (Value.onMap f) else named? name es := by
  induction es with
  | nil => simp [modifyMap]
  | cons e es ih =>
    simp only [named?] at ih ⊢
    rw [modifyMap]
    split
    next h =>
      rw [get?_cons, get?_cons, Key.text_agrees_iff.mp h, Key.text_agrees_text]
      by_cases hn : name = other <;> simp [hn]
    next h =>
      rw [get?_cons, get?_cons, ih]
      by_cases hn : name = other
      · subst hn; simp [h]
      · simp [hn]

/-- A change of the mapping under a name leaves the other keys. -/
theorem get?_modifyMap_of_not_agrees (h : (Key.text name).agrees key = false)
    (f : Entries → Entries) (es : Entries) : get? key (modifyMap name f es) = get? key es := by
  induction es with
  | nil => rfl
  | cons e es ih =>
    rw [modifyMap]
    split
    next he =>
      have hkey : key.agrees e.1 = false := by rw [← Key.agrees_congr he, Key.agrees_comm, h]
      rw [get?_cons, get?_cons, hkey]
      rfl
    next => rw [get?_cons, get?_cons, ih]

/-- Where there is a mapping, a change of it writes the changed one in its place. -/
theorem modifyMap_eq_insert {inner : Entries} {mark : Option Mark} {f : Entries → Entries}
    (h : named? name es = some (.map inner mark)) :
    modifyMap name f es = insert (.text name) (.map (f inner) mark) es := by
  induction es with
  | nil => cases h
  | cons e es ih =>
    rw [named?, get?_cons] at h
    rw [modifyMap, insert]
    split at h
    next hk =>
      rw [if_pos hk, if_pos hk, Option.some.inj h]
      rfl
    next hk => rw [if_neg hk, if_neg hk, ih h]

/-- A change that leaves the mapping under its name as it is changes nothing. -/
theorem modifyMap_eq_self {f : Entries → Entries}
    (h : ∀ v, named? name es = some v → v.onMap f = v) : modifyMap name f es = es := by
  induction es with
  | nil => rfl
  | cons e es ih =>
    simp only [named?, get?_cons] at h ih
    rw [modifyMap]
    split
    next hk =>
      rw [if_pos hk] at h
      rw [h _ rfl]
    next hk =>
      rw [if_neg hk] at h
      rw [ih h]

theorem ne_nil_of_keys_eq {fs : Entries} (h : es.map Prod.fst = fs.map Prod.fst)
    (hne : fs ≠ []) : es ≠ [] := by
  rintro rfl
  exact hne (List.map_eq_nil_iff.mp h.symm)

theorem Distinct.modifyMap (h : Distinct es) (name : String) (f : Entries → Entries) :
    Distinct (Entries.modifyMap name f es) :=
  (distinct_congr (keys_modifyMap name f es)).mpr h

theorem keys_mapEach (f : Entries → Entries) (es : Entries) :
    (mapEach f es).map Prod.fst = es.map Prod.fst := by
  rw [mapEach, List.map_map]
  rfl

theorem get?_mapEach (f : Entries → Entries) (key : Key) (es : Entries) :
    get? key (mapEach f es) = (get? key es).map (Value.onMap f) := by
  induction es with
  | nil => rfl
  | cons e es ih =>
    rw [mapEach, List.map_cons, get?_cons, get?_cons, ← mapEach, ih]
    split <;> rfl

theorem mapEach_eq_self {f : Entries → Entries} (h : ∀ e ∈ es, e.2.onMap f = e.2) :
    mapEach f es = es := by
  conv => rhs; rw [← List.map_id es]
  exact List.map_congr_left fun e he => by rw [h e he]; rfl

theorem Distinct.mapEach (h : Distinct es) (f : Entries → Entries) :
    Distinct (Entries.mapEach f es) :=
  (distinct_congr (keys_mapEach f es)).mpr h

end Entries

end ThemeSheet
