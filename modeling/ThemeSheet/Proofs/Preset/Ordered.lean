import ThemeSheet.Preset.Ordered

/-!
# Named values in order

What is found in a list of named values after others have been written into it, and which names it
has then. The names stand in the order in which they were written for the first time, and the values
are those that were written last. A list in which no name stands twice is told by both of these, and
writing the outcome of some writes has the effect of those writes.

## Main definitions

* `Named.IsFirstOccurrences`, of the names of a list in the order of their first occurrence;
* `Named.IsOutcome`, of what comes of writing values under names.

## Main results

* `Named.lookup_putAll`: the last value that is written under a name is the one that is found;
* `Named.mem_of_mem_putAll`: what is in the list was written;
* `Named.mem_names_putAll`, `Named.mem_distinct`: the names;
* `Named.isFirstOccurrences_iff`, `Named.names_putAll`: their order;
* `Named.ext_lookup`: a list is told by its names and by what is found under them;
* `Named.isOutcome_iff`, `Named.putAll_outcome`: the outcome of writes, and writing it again.
-/

namespace ThemeSheet.Named

variable {α : Type} {name k : String} {v a : α} {into new : List (String × α)} {e : String × α}

theorem putAll_cons (into : List (String × α)) (e : String × α) (new : List (String × α)) :
    putAll into (e :: new) = putAll (put e.1 e.2 into) new := rfl

theorem putAll_append (into new more : List (String × α)) :
    putAll into (new ++ more) = putAll (putAll into new) more := List.foldl_append

/-! ### What is found -/

theorem lookup_cons (k : String) (e : String × α) (into : List (String × α)) :
    (e :: into).lookup k = if k = e.1 then some e.2 else into.lookup k := by
  rw [List.lookup_cons]
  by_cases h : k = e.1
  · simp [h]
  · simp [h, beq_eq_false_iff_ne.mpr h]

theorem lookup_of_not_mem_names (h : k ∉ into.map (·.1)) : into.lookup k = none := by
  refine List.lookup_eq_none_iff.mpr fun e he => bne_iff_ne.mpr fun heq => h ?_
  exact heq ▸ List.mem_map_of_mem he

theorem lookup_put (k name : String) (v : α) (into : List (String × α)) :
    (put name v into).lookup k = if k = name then some v else into.lookup k := by
  induction into with
  | nil => exact lookup_cons k (name, v) []
  | cons e into ih =>
    obtain ⟨n, w⟩ := e
    rw [put]
    split
    next h =>
      subst h
      rw [lookup_cons, lookup_cons]
      split <;> rfl
    next h =>
      rw [lookup_cons, lookup_cons, ih]
      by_cases hk : k = n
      · have hne : ¬ k = name := fun heq => h (hk.symm.trans heq)
        rw [if_pos hk, if_neg hne, if_pos hk]
      · rw [if_neg hk, if_neg hk]

/-- **The last value that is written under a name is the one that is found.** -/
theorem lookup_putAll (k : String) (into new : List (String × α)) :
    (putAll into new).lookup k = (new.reverse.lookup k).or (into.lookup k) := by
  induction new generalizing into with
  | nil => rfl
  | cons e new ih =>
    rw [putAll_cons, ih, lookup_put, List.reverse_cons, List.lookup_append,
      Option.or_assoc, lookup_cons]
    congr 1
    split <;> rfl

/-! ### What is in the list -/

/-- What is found under a name is in the list. -/
theorem mem_of_lookup (h : into.lookup k = some a) : (k, a) ∈ into := by
  obtain ⟨before, after, rfl, -⟩ := List.lookup_eq_some_iff.mp h
  exact List.mem_append_right before List.mem_cons_self

theorem mem_put (h : e ∈ put name a into) : e = (name, a) ∨ e ∈ into := by
  induction into with
  | nil => exact .inl (List.mem_singleton.mp h)
  | cons f into ih =>
    rw [put] at h
    split at h
    next hname =>
      rcases List.mem_cons.mp h with rfl | h
      · exact .inl (by rw [hname])
      · exact .inr (List.mem_cons_of_mem f h)
    next =>
      rcases List.mem_cons.mp h with rfl | h
      · exact .inr List.mem_cons_self
      · exact (ih h).imp_right (List.mem_cons_of_mem f)

/-- **What is in the list was written.** -/
theorem mem_of_mem_putAll (h : e ∈ putAll [] new) : e ∈ new := by
  let Written : List (String × α) → Prop := fun done => ∀ e ∈ done, e ∈ new
  have hall : Written (putAll [] new) := by
    refine List.foldlRecOn (motive := Written) new _ (by simp [Written]) ?_
    intro done hdone f hf e he
    rcases mem_put he with rfl | he
    · exact hf
    · exact hdone e he
  exact hall e h

/-! ### Names -/

theorem mem_names_put {n : String} :
    n ∈ (put name a into).map (·.1) ↔ n = name ∨ n ∈ into.map (·.1) := by
  induction into with
  | nil => simp [put]
  | cons f into ih =>
    rw [put]
    split
    next hname => simp [hname]
    next =>
      rw [List.map_cons, List.mem_cons, ih, List.map_cons, List.mem_cons]
      exact or_left_comm

/-- **The names are those that were there and those that were written.** -/
theorem mem_names_putAll {n : String} :
    n ∈ (putAll into new).map (·.1) ↔ n ∈ into.map (·.1) ∨ n ∈ new.map (·.1) := by
  induction new generalizing into with
  | nil => simp [putAll]
  | cons f new ih =>
    rw [putAll_cons, ih, mem_names_put, List.map_cons, List.mem_cons,
      or_assoc]
    exact or_left_comm

/-! ### The order of names -/

/-- The names of a list, each of them once, in the order of their first occurrence. -/
structure IsFirstOccurrences (names firsts : List String) : Prop where
  mem_iff : ∀ n, n ∈ firsts ↔ n ∈ names
  ordered : firsts.Pairwise fun a b => names.idxOf a < names.idxOf b

/-- A name goes to the end of the names, unless it is among them. -/
def note (done : List String) (n : String) : List String :=
  if done.contains n then done else done ++ [n]

theorem note_of_mem {n : String} {done : List String} (h : n ∈ done) : note done n = done := by
  rw [note, if_pos (List.contains_iff_mem.mpr h)]

theorem note_of_not_mem {n : String} {done : List String} (h : n ∉ done) :
    note done n = done ++ [n] := by
  rw [note, if_neg (mt List.contains_iff_mem.mp h)]

namespace IsFirstOccurrences

variable {names firsts others : List String}

theorem nodup (h : IsFirstOccurrences names firsts) : firsts.Nodup :=
  h.ordered.imp fun {a b} hlt heq => by
    subst heq
    exact Nat.lt_irrefl _ hlt

/-- There is one such list only. -/
theorem unique (h : IsFirstOccurrences names firsts) (h' : IsFirstOccurrences names others) :
    firsts = others := by
  have hperm : firsts.Perm others := (List.perm_ext_iff_of_nodup h.nodup h'.nodup).mpr fun n =>
    (h.mem_iff n).trans (h'.mem_iff n).symm
  refine hperm.eq_of_pairwise (fun a b _ _ hab hba => ?_) h.ordered h'.ordered
  exact absurd hba (Nat.lt_asymm hab)

/-- One more name. -/
theorem note (h : IsFirstOccurrences names firsts) (n : String) :
    IsFirstOccurrences (names ++ [n]) (note firsts n) := by
  have hold : ∀ a ∈ firsts, (names ++ [n]).idxOf a = names.idxOf a := fun a ha => by
    rw [List.idxOf_append, if_pos ((h.mem_iff a).mp ha)]
  have hfirsts : firsts.Pairwise fun a b => (names ++ [n]).idxOf a < (names ++ [n]).idxOf b := by
    refine h.ordered.imp_of_mem fun {a b} ha hb hlt => ?_
    rwa [hold a ha, hold b hb]
  by_cases hn : n ∈ firsts
  · rw [note_of_mem hn]
    refine ⟨fun a => ?_, hfirsts⟩
    rw [List.mem_append, List.mem_singleton, h.mem_iff, iff_self_or]
    rintro rfl
    exact (h.mem_iff a).mp hn
  · rw [note_of_not_mem hn]
    refine ⟨fun a => ?_, List.pairwise_append.mpr ⟨hfirsts, List.pairwise_singleton _ _, ?_⟩⟩
    · rw [List.mem_append, List.mem_append, h.mem_iff]
    · -- The new name comes behind all the others.
      intro a ha b hb
      rw [List.mem_singleton.mp hb, hold a ha, List.idxOf_append,
        if_neg (mt (h.mem_iff n).mpr hn)]
      exact Nat.lt_add_left _ (List.idxOf_lt_length_of_mem ((h.mem_iff a).mp ha))

/-- Several more names. -/
theorem foldl_note (h : IsFirstOccurrences names firsts) (more : List String) :
    IsFirstOccurrences (names ++ more) (more.foldl Named.note firsts) := by
  induction more generalizing names firsts with
  | nil => rwa [List.append_nil]
  | cons n more ih =>
    have hrest := ih (h.note n)
    rwa [List.append_assoc] at hrest

end IsFirstOccurrences

theorem isFirstOccurrences_distinct (names : List String) :
    IsFirstOccurrences names (distinct names) := by
  have hnil : IsFirstOccurrences [] [] := ⟨fun _ => Iff.rfl, List.Pairwise.nil⟩
  exact hnil.foldl_note names

theorem mem_distinct {n : String} {names : List String} : n ∈ distinct names ↔ n ∈ names :=
  (isFirstOccurrences_distinct names).mem_iff n

/-- **The names in the order of their first occurrence.** -/
theorem isFirstOccurrences_iff {names firsts : List String} :
    IsFirstOccurrences names firsts ↔ firsts = distinct names :=
  ⟨fun h => h.unique (isFirstOccurrences_distinct names),
    fun h => h ▸ isFirstOccurrences_distinct names⟩

/-! ### The order of what is written -/

theorem names_put (name : String) (a : α) (into : List (String × α)) :
    (put name a into).map (·.1) = note (into.map (·.1)) name := by
  induction into with
  | nil => rfl
  | cons e into ih =>
    rw [put]
    split
    next h => exact (note_of_mem (List.mem_map.mpr ⟨e, List.mem_cons_self, h⟩)).symm
    next h =>
      rw [List.map_cons, ih]
      by_cases hmem : name ∈ into.map (·.1)
      · have hcons : name ∈ (e :: into).map (·.1) := List.mem_cons_of_mem _ hmem
        rw [note_of_mem hmem, note_of_mem hcons, List.map_cons]
      · have hne : name ∉ (e :: into).map (·.1) := by
          rw [List.map_cons, List.mem_cons, not_or]
          exact ⟨Ne.symm h, hmem⟩
        rw [note_of_not_mem hmem, note_of_not_mem hne, List.map_cons, List.cons_append]

theorem names_putAll_into (into new : List (String × α)) :
    (putAll into new).map (·.1) = (new.map (·.1)).foldl note (into.map (·.1)) := by
  induction new generalizing into with
  | nil => rfl
  | cons e new ih => rw [putAll_cons, ih, names_put, List.map_cons, List.foldl_cons]

/-- **The names stand in the order in which they were written for the first time.** -/
theorem names_putAll (new : List (String × α)) :
    (putAll [] new).map (·.1) = distinct (new.map (·.1)) := names_putAll_into [] new

theorem nodup_names_putAll (new : List (String × α)) : ((putAll [] new).map (·.1)).Nodup := by
  rw [names_putAll]
  exact (isFirstOccurrences_distinct _).nodup

/-! ### What tells a list -/

/-- **A list in which no name stands twice** is told by its names and by what is found under
them. -/
theorem ext_lookup {es fs : List (String × α)} (hnodup : (es.map (·.1)).Nodup)
    (hnames : es.map (·.1) = fs.map (·.1)) (h : ∀ k, es.lookup k = fs.lookup k) : es = fs := by
  induction es generalizing fs with
  | nil => exact (List.map_eq_nil_iff.mp hnames.symm).symm
  | cons e es ih =>
    cases fs with
    | nil => cases hnames
    | cons f fs =>
      obtain ⟨hname, htail⟩ := List.cons_eq_cons.mp hnames
      obtain ⟨hfresh, hnodup⟩ := List.nodup_cons.mp hnodup
      have hhead := h e.1
      rw [lookup_cons, lookup_cons, if_pos rfl, if_pos hname] at hhead
      have hef : e = f := Prod.ext hname (Option.some.inj hhead)
      subst hef
      refine congrArg (e :: ·) (ih hnodup htail fun k => ?_)
      by_cases hk : k = e.1
      · rw [hk, lookup_of_not_mem_names hfresh, lookup_of_not_mem_names (htail ▸ hfresh)]
      · have hrest := h k
        rwa [lookup_cons, lookup_cons, if_neg hk, if_neg hk] at hrest

/-! ### The outcome of writes -/

/-- The outcome of writing values under names, one after the other: the names in the order of their
first occurrence, each with the value that comes last under it. -/
structure IsOutcome (writes outcome : List (String × α)) : Prop where
  order : IsFirstOccurrences (writes.map (·.1)) (outcome.map (·.1))
  value : ∀ name, outcome.lookup name = writes.reverse.lookup name

/-- **The outcome of writing into nothing.** -/
theorem isOutcome_iff {writes outcome : List (String × α)} :
    IsOutcome writes outcome ↔ outcome = putAll [] writes := by
  have hlookup : ∀ name, (putAll [] writes).lookup name = writes.reverse.lookup name := by
    intro name
    rw [lookup_putAll, List.lookup_nil, Option.or_none]
  constructor
  · rintro ⟨horder, hvalue⟩
    refine ext_lookup horder.nodup ?_ fun name => by rw [hvalue, hlookup]
    rw [names_putAll]
    exact isFirstOccurrences_iff.mp horder
  · rintro rfl
    refine ⟨?_, hlookup⟩
    rw [names_putAll]
    exact isFirstOccurrences_distinct _

/-! ### Writing an outcome -/

theorem put_put (name : String) (a b : α) (into : List (String × α)) :
    put name b (put name a into) = put name b into := by
  induction into with
  | nil => exact if_pos rfl
  | cons e into ih =>
    rw [put]
    split
    next h => rw [put, if_pos h, put, if_pos h]
    next h => rw [put, if_neg h, ih, put, if_neg h]

/-- A name that is there keeps its place, so it does not matter whether another one is written
before it or after it. -/
theorem put_comm {n : String} (hname : name ∈ into.map (·.1)) (hne : name ≠ n) (a b : α) :
    put name a (put n b into) = put n b (put name a into) := by
  induction into with
  | nil => cases hname
  | cons e into ih =>
    by_cases he : e.1 = name
    · have hn : e.1 ≠ n := fun heq => hne (he.symm.trans heq)
      rw [put, if_neg hn, put, if_pos he, put, if_pos he, put, if_neg hn]
    · have hmem : name ∈ into.map (·.1) := by
        rw [List.map_cons, List.mem_cons] at hname
        exact hname.resolve_left (Ne.symm he)
      by_cases hn : e.1 = n
      · rw [put, if_pos hn, put, if_neg he, put, if_neg he, put, if_pos hn]
      · rw [put, if_neg hn, put, if_neg he, ih hmem, put, if_neg he, put, if_neg hn]

theorem put_putAll (hname : name ∈ into.map (·.1)) (hnew : name ∉ new.map (·.1)) (a : α) :
    put name a (putAll into new) = putAll (put name a into) new := by
  induction new generalizing into with
  | nil => rfl
  | cons e new ih =>
    rw [List.map_cons, List.mem_cons, not_or] at hnew
    rw [putAll_cons, putAll_cons, ih (mem_names_put.mpr (.inr hname)) hnew.2,
      put_comm hname hnew.1]

/-- Writing a value into a list and then the list is writing the list and then the value. -/
theorem putAll_put (hnodup : (new.map (·.1)).Nodup) (name : String) (a : α)
    (into : List (String × α)) : putAll into (put name a new) = put name a (putAll into new) := by
  induction new generalizing into with
  | nil => rfl
  | cons e new ih =>
    obtain ⟨hfresh, hnodup⟩ := List.nodup_cons.mp hnodup
    rw [put]
    split
    next h =>
      have hwritten : e.1 ∈ (put e.1 e.2 into).map (·.1) := mem_names_put.mpr (.inl rfl)
      rw [← h, putAll_cons, putAll_cons, put_putAll hwritten hfresh, put_put]
    next => exact ih hnodup (put e.1 e.2 into)

theorem nodup_names_put (hnodup : (into.map (·.1)).Nodup) (name : String) (a : α) :
    ((put name a into).map (·.1)).Nodup := by
  rw [names_put]
  by_cases h : name ∈ into.map (·.1)
  · rwa [note_of_mem h]
  · rw [note_of_not_mem h]
    refine List.nodup_append.mpr ⟨hnodup, List.pairwise_singleton _ _, fun m hm n hn heq => h ?_⟩
    rwa [← List.mem_singleton.mp hn, ← heq]

theorem putAll_putAll {done : List (String × α)} (hnodup : (done.map (·.1)).Nodup)
    (into new : List (String × α)) :
    putAll into (putAll done new) = putAll (putAll into done) new := by
  induction new generalizing done with
  | nil => rfl
  | cons e new ih =>
    rw [putAll_cons, putAll_cons, ih (nodup_names_put hnodup e.1 e.2), putAll_put hnodup]

/-- **Writing the outcome of writes has the effect of the writes.** -/
theorem putAll_outcome (into new : List (String × α)) :
    putAll into (putAll [] new) = putAll into new := putAll_putAll (by simp) into new

end ThemeSheet.Named
