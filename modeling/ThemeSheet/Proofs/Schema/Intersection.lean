import ThemeSheet.Proofs.Schema.Conformance

/-!
# What pruning leaves of a tree

A schema and a tree have paths in common: those of the schema that end at a leaf and lead, through
mappings all the way, to something in the tree. What pruning leaves is the tree along these paths
and nothing besides. At each of them stands the very value of the tree; every way in what is left is
on the way to such a path or leads on from it; no section is empty, since each is on the way to a
leaf; and the keys of every section have the order that they had.

Nothing is asked of the tree but that no mapping of it has two entries of one key.

## Main definitions

* `Schema.IsLeafPath`, of the paths of a schema that end at a leaf;
* `Schema.IsIntersection`, of what a tree and a schema have in common.

## Main results

* `Schema.exists_leafPath_of_walkKeys?`: every way in what pruning leaves has to do with a leaf;
* `Schema.IsIntersection.unique`: a tree and a schema have one tree in common;
* `Schema.prune_isIntersection`: that tree is what pruning leaves.
-/

namespace ThemeSheet.Schema

open Value (walk? walkKeys?)

/-- A path of a schema that ends at a leaf. -/
structure IsLeafPath (fields : List (String × Schema)) (p : Path) : Prop where
  leaf : part? p (.fields fields) = some .any
  inside : staysInside p (.fields fields) = true

/-- What a tree and a schema have in common, with the keys in the order of the tree. -/
structure IsIntersection (fields : List (String × Schema)) (tree : Value) (kept : Entries) :
    Prop where
  /-- At a leaf there is the very value of the tree, and nothing if the tree has nothing there. -/
  leaf : ∀ p, IsLeafPath fields p → walk? p (.map kept) = walk? p tree
  /-- Every way leads towards a leaf at which there is a value, or on from one. -/
  covered : ∀ keys v, keys ≠ [] → walkKeys? keys (.map kept) = some v →
    ∃ p w, IsLeafPath fields p ∧ walk? p (.map kept) = some w ∧
      (keys <+: p.keys ∨ p.keys <+: keys)
  /-- Where the schema has a section there is a mapping, and it has entries. -/
  filled : ∀ q sub v, q ≠ [] → part? q (.fields fields) = some (.fields sub) →
    walk? q (.map kept) = some v → ∃ inner, v = .map inner ∧ inner ≠ []
  /-- Where the schema has a section, the keys have the order that they have in the tree. -/
  order : ∀ q sub inner, part? q (.fields fields) = some (.fields sub) →
    walk? q (.map kept) = some (.map inner) → ∃ source mark,
      walk? q tree = some (.map source mark) ∧ (inner.map Prod.fst).Sublist (source.map Prod.fst)

variable {fields sub : List (String × Schema)} {es inner : Entries} {mark : Option Mark}
  {name : String} {key : Key} {v w : Value} {p q : Path} {s : Schema}

/-! ### Paths of a schema -/

theorem isLeafPath_singleton (h : field? fields name = some .any) : IsLeafPath fields [name] := by
  constructor
  · rw [part?_cons_fields, h, Option.bind_some, part?_nil]
  · rw [staysInside, h, Option.all_some, staysInside]

theorem IsLeafPath.cons (h : field? fields name = some (.fields sub)) (hp : IsLeafPath sub p) :
    IsLeafPath fields (name :: p) := by
  constructor
  · rw [part?_cons_fields, h, Option.bind_some, hp.leaf]
  · rw [staysInside, h, Option.all_some, hp.inside]

theorem IsLeafPath.ne_nil (h : IsLeafPath fields p) : p ≠ [] := by
  rintro rfl
  cases h.leaf

/-- No path to a section goes on below a leaf. -/
theorem staysInside_of_part?_fields (h : part? p s = some (.fields sub)) :
    staysInside p s = true := by
  induction p generalizing s with
  | nil => rfl
  | cons name rest ih =>
    cases s with
    | any => cases h
    | fields fields =>
      rw [part?_cons_fields, Option.bind_eq_some_iff] at h
      obtain ⟨t, ht, h⟩ := h
      rw [staysInside, ht, Option.all_some, ih h]

/-! ### What is left by pruning -/

/-- Pruning leaves keys in their order. -/
theorem keys_pruneEntries_sublist (fields : List (String × Schema)) (es : Entries) :
    ((pruneEntries fields es).map Prod.fst).Sublist (es.map Prod.fst) := by
  induction es with
  | nil => simp [pruneEntries]
  | cons e es ih =>
    obtain ⟨k, v⟩ := e
    rw [pruneEntries_cons]
    cases kept? (ofKey? fields k) v with
    | none => exact ih.cons k
    | some w => exact ih.cons_cons k

theorem distinct_pruneEntries (h : Entries.Distinct es) (fields : List (String × Schema)) :
    Entries.Distinct (pruneEntries fields es) :=
  Entries.distinct_iff_keys.mpr
    ((Entries.distinct_iff_keys.mp h).sublist (keys_pruneEntries_sublist fields es))

/-- What is left under a key has been kept of what stood under it, and the key is a name. -/
theorem exists_of_get?_pruneEntries (h : Entries.Distinct es)
    (hw : Entries.get? key (pruneEntries fields es) = some w) :
    ∃ name v, key = .text name ∧ Entries.named? name es = some v ∧
      kept? (field? fields name) v = some w := by
  obtain ⟨k, hkey, hmem⟩ := Entries.mem_of_get? hw
  obtain ⟨v, hv, hkept⟩ := mem_pruneEntries fields es _ hmem
  obtain ⟨s, hs⟩ := exists_of_kept? hkept
  obtain ⟨name, rfl, hname⟩ := exists_text_of_ofKey? hs
  rw [Key.agrees_comm] at hkey
  exact ⟨name, v, Key.text_agrees_iff.mp hkey, Entries.get?_of_mem h hv, hkept⟩

/-- What is left, if anything is, has a leaf. -/
theorem exists_leafPath {fields : List (String × Schema)} {es : Entries} {mark : Option Mark}
    (h : (Value.map es mark).HasDistinctKeys) (hne : pruneEntries fields es ≠ []) :
    ∃ p w, IsLeafPath fields p ∧ walk? p (.map (pruneEntries fields es)) = some w := by
  obtain ⟨hd, hvalue⟩ := Value.hasDistinctKeys_map.mp h
  obtain ⟨⟨k, w⟩, rest, hcons⟩ := List.exists_cons_of_ne_nil hne
  have hmem : (k, w) ∈ pruneEntries fields es := by
    rw [hcons]
    exact List.mem_cons_self
  have hw := Entries.get?_of_mem (distinct_pruneEntries hd fields) hmem
  obtain ⟨name, v, rfl, hv, hkept⟩ := exists_of_get?_pruneEntries hd hw
  obtain ⟨hfield, rfl⟩ | ⟨sub, inner, m, hfield, rfl, hinner, rfl⟩ := cases_of_kept? hkept
  · exact ⟨[name], w, isLeafPath_singleton hfield, by rw [Value.walk?_singleton_map]; exact hw⟩
  · have hsize := Entries.sizeOf_lt_of_named? hv
    obtain ⟨p, u, hp, hu⟩ := exists_leafPath (h.named? hv) hinner
    exact ⟨name :: p, u, hp.cons hfield, by rw [Value.walk?_cons_map, Entries.named?, hw]; exact hu⟩
termination_by sizeOf es

/-- **Every way in what is left** leads towards a leaf at which there is a value, or on from one. -/
theorem exists_leafPath_of_walkKeys? {keys : List Key} (h : (Value.map es mark).HasDistinctKeys)
    (hne : keys ≠ []) (hv : walkKeys? keys (.map (pruneEntries fields es)) = some v) :
    ∃ p w, IsLeafPath fields p ∧ walk? p (.map (pruneEntries fields es)) = some w ∧
      (keys <+: p.keys ∨ p.keys <+: keys) := by
  induction keys generalizing fields es mark with
  | nil => exact absurd rfl hne
  | cons key rest ih =>
    rw [Value.walkKeys?_cons_map, Option.bind_eq_some_iff] at hv
    obtain ⟨w, hw, hv⟩ := hv
    obtain ⟨name, u, rfl, hu, hkept⟩ :=
      exists_of_get?_pruneEntries (Value.hasDistinctKeys_map.mp h).1 hw
    have hread : Entries.named? name (pruneEntries fields es) = some w := hw
    obtain ⟨hfield, rfl⟩ | ⟨sub, inner, m, hfield, rfl, hinner, rfl⟩ := cases_of_kept? hkept
    · refine ⟨[name], w, isLeafPath_singleton hfield, ?_, .inr ⟨rest, rfl⟩⟩
      rw [Value.walk?_singleton_map, hread]
    · have hbelow : ∃ p u, IsLeafPath sub p ∧ walk? p (.map (pruneEntries sub inner)) = some u ∧
          (rest <+: p.keys ∨ p.keys <+: rest) := by
        cases rest with
        | nil =>
          obtain ⟨p, u, hp, hu⟩ := exists_leafPath (h.named? hu) hinner
          exact ⟨p, u, hp, hu, .inl List.nil_prefix⟩
        | cons other rest => exact ih (h.named? hu) (by simp) hv
      obtain ⟨p, u, hp, hu, hway⟩ := hbelow
      refine ⟨name :: p, u, hp.cons hfield, ?_, ?_⟩
      · rw [Value.walk?_cons_map, hread]
        exact hu
      · rw [Path.keys_cons, List.cons_prefix_cons, List.cons_prefix_cons]
        exact hway.imp (⟨rfl, ·⟩) (⟨rfl, ·⟩)

/-- Where a schema has a section, there is what is left of a mapping of the tree. -/
theorem exists_of_walk?_section (h : (Value.map es mark).HasDistinctKeys) (hne : q ≠ [])
    (hq : part? q (.fields fields) = some (.fields sub))
    (hv : walk? q (.map (pruneEntries fields es)) = some v) :
    ∃ source m, walk? q (.map es mark) = some (.map source m) ∧ pruneEntries sub source ≠ [] ∧
      v = .map (pruneEntries sub source) := by
  rw [walk?_pruneEntries_eq_bind h hne (staysInside_of_part?_fields hq) hq,
    Option.bind_eq_some_iff] at hv
  obtain ⟨u, hu, hkept⟩ := hv
  obtain ⟨hany, -⟩ | ⟨sub', source, m, hsub, rfl, hsource, rfl⟩ := cases_of_kept? hkept
  · cases hany
  · cases hsub
    exact ⟨source, m, hu, hsource, rfl⟩

/-- What pruning leaves of a mapping is what the mapping and the schema have in common. -/
theorem isIntersection_pruneEntries (h : (Value.map es mark).HasDistinctKeys) :
    IsIntersection fields (.map es mark) (pruneEntries fields es) := by
  constructor
  case leaf =>
    intro p hp
    rw [walk?_pruneEntries_eq_bind h hp.ne_nil hp.inside hp.leaf]
    cases walk? p (.map es mark) <;> rfl
  case covered => exact fun keys v hne hv => exists_leafPath_of_walkKeys? h hne hv
  case filled =>
    intro q sub v hne hq hv
    obtain ⟨source, m, -, hsource, rfl⟩ := exists_of_walk?_section h hne hq hv
    exact ⟨_, rfl, hsource⟩
  case order =>
    intro q sub inner hq hv
    by_cases hne : q = []
    · subst hne
      cases hv
      exact ⟨es, mark, rfl, keys_pruneEntries_sublist fields es⟩
    · obtain ⟨source, m, hu, -, heq⟩ := exists_of_walk?_section h hne hq hv
      cases heq
      exact ⟨source, m, hu, keys_pruneEntries_sublist sub source⟩

/-! ### What a tree and a schema have in common is determined -/

/-- Two parts of a list without repetitions that have the same members are the same. -/
theorem eq_of_sublist_of_mem_iff {α : Type} {l l₁ l₂ : List α} (hl : l.Nodup)
    (h₁ : l₁.Sublist l) (h₂ : l₂.Sublist l) (hmem : ∀ a, a ∈ l₁ ↔ a ∈ l₂) : l₁ = l₂ := by
  induction l generalizing l₁ l₂ with
  | nil => rw [List.sublist_nil.mp h₁, List.sublist_nil.mp h₂]
  | cons a l ih =>
    obtain ⟨ha, hl⟩ := List.nodup_cons.mp hl
    cases h₁ with
    | cons _ h₁ =>
      cases h₂ with
      | cons _ h₂ => exact ih hl h₁ h₂ hmem
      | cons_cons _ h₂ => exact absurd (h₁.subset ((hmem a).mpr List.mem_cons_self)) ha
    | cons_cons _ h₁ =>
      cases h₂ with
      | cons _ h₂ => exact absurd (h₂.subset ((hmem a).mp List.mem_cons_self)) ha
      | cons_cons _ h₂ =>
        refine congrArg (a :: ·) (ih hl h₁ h₂ fun b => ?_)
        have hb := hmem b
        rw [List.mem_cons, List.mem_cons] at hb
        constructor
        · intro hb₁
          refine (hb.mp (.inr hb₁)).resolve_left ?_
          rintro rfl
          exact ha (h₁.subset hb₁)
        · intro hb₂
          refine (hb.mpr (.inr hb₂)).resolve_left ?_
          rintro rfl
          exact ha (h₂.subset hb₂)

namespace IsIntersection

variable {kept other : Entries} {tree : Value}

/-- Every key is the name of a field and begins the path of a leaf at which there is a value. -/
theorem exists_leafPath_of_get? (h : IsIntersection fields tree kept)
    (hv : Entries.get? key kept = some v) : ∃ name rest w, key = .text name ∧
      IsLeafPath fields (name :: rest) ∧ walk? (name :: rest) (.map kept) = some w := by
  have hwalk : walkKeys? [key] (.map kept) = some v := by
    rw [Value.walkKeys?_cons_map, hv, Option.bind_some, Value.walkKeys?_nil]
  obtain ⟨p, w, hp, hw, hway⟩ := h.covered [key] v (by simp) hwalk
  obtain ⟨name, rest, rfl⟩ := List.exists_cons_of_ne_nil hp.ne_nil
  rw [Path.keys_cons, List.cons_prefix_cons, List.cons_prefix_cons] at hway
  exact ⟨name, rest, w, hway.elim (·.1) (·.1.symm), hp, hw⟩

/-- A key of one is a key of the other. -/
theorem exists_get? (h : IsIntersection fields tree kept) (h' : IsIntersection fields tree other)
    (hv : Entries.get? key kept = some v) : ∃ w, Entries.get? key other = some w := by
  obtain ⟨name, rest, w, rfl, hp, hw⟩ := h.exists_leafPath_of_get? hv
  rw [h.leaf _ hp, ← h'.leaf _ hp, Value.walk?_cons_map, Option.bind_eq_some_iff] at hw
  obtain ⟨u, hu, -⟩ := hw
  exact ⟨u, hu⟩

/-- The keys are some of the tree's, in its order. -/
theorem keys_sublist (h : IsIntersection fields (.map es mark) kept) :
    (kept.map Prod.fst).Sublist (es.map Prod.fst) := by
  obtain ⟨source, m, hsource, hkeys⟩ := h.order [] fields kept rfl rfl
  cases hsource
  exact hkeys

theorem distinct (h : IsIntersection fields (.map es mark) kept) (hd : Entries.Distinct es) :
    Entries.Distinct kept :=
  Entries.distinct_iff_keys.mpr ((Entries.distinct_iff_keys.mp hd).sublist h.keys_sublist)

/-- All keys of one are keys of the other. -/
theorem keys_subset (h : IsIntersection fields (.map es mark) kept)
    (h' : IsIntersection fields (.map es mark) other) (hd : Entries.Distinct es) :
    kept.map Prod.fst ⊆ other.map Prod.fst := by
  intro key hkey
  obtain ⟨⟨k, v⟩, he, rfl⟩ := List.mem_map.mp hkey
  have hv := Entries.get?_of_mem (h.distinct hd) he
  obtain ⟨name, -, -, rfl, -, -⟩ := h.exists_leafPath_of_get? hv
  obtain ⟨w, hw⟩ := h.exists_get? h' hv
  exact List.mem_map.mpr ⟨_, Entries.mem_of_named? hw, rfl⟩

theorem keys_eq (h : IsIntersection fields (.map es mark) kept)
    (h' : IsIntersection fields (.map es mark) other) (hd : Entries.Distinct es) :
    kept.map Prod.fst = other.map Prod.fst := by
  have hnodup : (es.map Prod.fst).Nodup := by
    refine (Entries.distinct_iff_keys.mp hd).imp fun {a b} hab => ?_
    rintro rfl
    rw [Key.agrees_self] at hab
    cases hab
  exact eq_of_sublist_of_mem_iff hnodup h.keys_sublist h'.keys_sublist fun key =>
    ⟨fun hkey => h.keys_subset h' hd hkey, fun hkey => h'.keys_subset h hd hkey⟩

/-- What a tree and a schema have in common below a name is what there is under the name. -/
theorem below {source : Entries} {m : Option Mark} (h : IsIntersection fields (.map es mark) kept)
    (hfield : field? fields name = some (.fields sub))
    (hsource : Entries.named? name es = some (.map source m))
    (hinner : Entries.named? name kept = some (.map inner)) :
    IsIntersection sub (.map source m) inner := by
  have htree : ∀ p, walk? (name :: p) (.map es mark) = walk? p (.map source m) := by
    intro p
    rw [Value.walk?_cons_map, hsource, Option.bind_some]
  have hkept : ∀ p, walk? (name :: p) (.map kept) = walk? p (.map inner) := by
    intro p
    rw [Value.walk?_cons_map, hinner, Option.bind_some]
  have hpart : ∀ p, part? (name :: p) (.fields fields) = part? p (.fields sub) := by
    intro p
    rw [part?_cons_fields, hfield, Option.bind_some]
  constructor
  case leaf =>
    intro p hp
    rw [← hkept, ← htree]
    exact h.leaf _ (hp.cons hfield)
  case covered =>
    intro keys v _ hv
    obtain ⟨p, w, hp, hw, hway⟩ := h.covered (.text name :: keys) v (by simp) (by
      rw [Value.walkKeys?_cons_map, ← Entries.named?, hinner, Option.bind_some, hv])
    obtain ⟨a, rest, rfl⟩ := List.exists_cons_of_ne_nil hp.ne_nil
    rw [Path.keys_cons, List.cons_prefix_cons, List.cons_prefix_cons] at hway
    cases hway.elim (·.1) (·.1.symm)
    rw [hkept] at hw
    refine ⟨rest, w, ⟨?_, ?_⟩, hw, hway.imp (·.2) (·.2)⟩
    · rw [← hpart, hp.leaf]
    · have hinside := hp.inside
      rwa [staysInside, hfield, Option.all_some] at hinside
  case filled =>
    intro q sub' v _ hq hv
    rw [← hpart] at hq
    rw [← hkept] at hv
    exact h.filled _ sub' v (by simp) hq hv
  case order =>
    intro q sub' inner' hq hv
    rw [← hpart] at hq
    rw [← hkept] at hv
    rw [← htree]
    exact h.order _ sub' inner' hq hv

/-- **A tree and a schema have one tree in common.** -/
theorem unique {fields : List (String × Schema)} {es kept other : Entries} {mark : Option Mark}
    (hd : (Value.map es mark).HasDistinctKeys) (h : IsIntersection fields (.map es mark) kept)
    (h' : IsIntersection fields (.map es mark) other) : kept = other := by
  have hes := (Value.hasDistinctKeys_map.mp hd).1
  have hkeys := h.keys_eq h' hes
  refine Entries.ext_get? (h.distinct hes) hkeys fun key => ?_
  cases hv : Entries.get? key kept with
  | none => exact (Entries.get?_eq_none_of_keys hkeys hv).symm
  | some v =>
    obtain ⟨w, hw⟩ := h.exists_get? h' hv
    obtain ⟨name, rest, -, rfl, hp, -⟩ := h.exists_leafPath_of_get? hv
    have hvwalk : walk? [name] (.map kept) = some v := by
      rw [Value.walk?_singleton_map]
      exact hv
    have hwwalk : walk? [name] (.map other) = some w := by
      rw [Value.walk?_singleton_map]
      exact hw
    have hleaf := hp.leaf
    rw [part?_cons_fields, Option.bind_eq_some_iff] at hleaf
    obtain ⟨s, hs, -⟩ := hleaf
    cases s with
    | any =>
      have hsingle := isLeafPath_singleton hs
      rw [h.leaf _ hsingle, ← h'.leaf _ hsingle, hwwalk] at hvwalk
      rw [hw, hvwalk]
    | fields sub =>
      have hpart : part? [name] (.fields fields) = some (.fields sub) := by
        rw [part?_cons_fields, hs, Option.bind_some, part?_nil]
      obtain ⟨inner, rfl, -⟩ := h.filled _ sub v (by simp) hpart hvwalk
      obtain ⟨inner', rfl, -⟩ := h'.filled _ sub w (by simp) hpart hwwalk
      obtain ⟨source, m, hsource, -⟩ := h.order _ sub inner hpart hvwalk
      rw [Value.walk?_singleton_map] at hsource
      have hsize := Entries.sizeOf_lt_of_named? hsource
      rw [hw, unique (hd.named? hsource) (h.below hs hsource hv) (h'.below hs hsource hw)]
termination_by sizeOf es

end IsIntersection

/-- **Pruning is intersection.** What it leaves of a mapping is what the mapping and the schema have
in common, and nothing else is. -/
theorem prune_isIntersection (fields : List (String × Schema)) (es : Entries) (mark : Option Mark)
    (h : (Value.map es mark).HasDistinctKeys) :
    IsIntersection fields (.map es mark) (prune fields (.map es mark)) ∧
      ∀ kept, IsIntersection fields (.map es mark) kept → kept = prune fields (.map es mark) := by
  rw [prune_map]
  exact ⟨isIntersection_pruneEntries h,
    fun kept hkept => hkept.unique h (isIntersection_pruneEntries h)⟩

/-- Of a section that holds a null at a leaf, a text in the place of a section and an unknown key,
the null is left. -/
theorem prune_isIntersection_null :
    let schema : List (String × Schema) :=
      [("spacing", leaves ["blockGap", "margin"]), ("border", leaves ["radius"])]
    let tree := Value.map [(.int 1, .null), (.text "border", .text "none"),
      (.text "spacing", .map [(.text "gap", .bool true), (.text "blockGap", .null)])]
    tree.HasDistinctKeys ∧ IsIntersection schema tree (prune schema tree) ∧
      prune schema tree = [(.text "spacing", .map [(.text "blockGap", .null)])] := by
  intro schema tree
  have htree : tree.HasDistinctKeys := Value.IsTree.hasDistinctKeys (by decide)
  exact ⟨htree, (prune_isIntersection schema _ none htree).1, rfl⟩

end ThemeSheet.Schema
