import ThemeSheet.Proofs.Schema.Conformance
import ThemeSheet.Proofs.Tree.Apart
import ThemeSheet.Proofs.Tree.Built

/-!
# Trees that are written leaf by leaf

Leaves are written at paths into nothing, and no path leads through another. Then the leaves of the
tree are what has been written: every one of them stands where it was written, and besides them
there are only the mappings on the way, none of which is empty.

## Main definitions

* `Entries.setAll`, several writes into entries;
* `AreLeaves`, of writes none of which comes in the way of another.

## Main results

* `AreLeaves.walk?_iff`: the leaves of the tree;
* `Entries.ne_nil_of_walk?_setAll`: no mapping of it is empty;
* `Schema.Fits.setAll`: writing what a schema has at paths.
-/

namespace ThemeSheet

open ThemeSheet.Path (Diverges)
open Value (walk?)

/-- Leaves to be written, none of which comes in the way of another. -/
structure AreLeaves (writes : List (Path × Value)) : Prop where
  ne_nil : ∀ write ∈ writes, write.1 ≠ []
  leaf : ∀ write ∈ writes, write.2.isMap = false
  apart : ∀ write ∈ writes, ∀ other ∈ writes, write = other ∨ Diverges write.1 other.1

namespace Entries

variable {es : Entries} {writes : List (Path × Value)} {p q : Path} {v w : Value}

/-- Writes values at paths into entries, one after the other. -/
def setAll (es : Entries) (writes : List (Path × Value)) : Entries :=
  writes.foldl (fun es write => Value.setEntries write.1 write.2 es) es

@[simp] theorem setAll_nil (es : Entries) : es.setAll [] = es := rfl

theorem setAll_append (es : Entries) (writes others : List (Path × Value)) :
    es.setAll (writes ++ others) = (es.setAll writes).setAll others := List.foldl_append

theorem map_setAll (es : Entries) (writes : List (Path × Value)) (mark : Option Mark) :
    Value.map (es.setAll writes) mark = (Value.map es mark).setAll writes := by
  induction writes generalizing es with
  | nil => rfl
  | cons write writes ih => exact ih _

/-- What single writes keep, several ones keep. -/
theorem setAll_induction {motive : Entries → Prop} (h : motive es)
    (hset : ∀ es, ∀ write ∈ writes, motive es → motive (Value.setEntries write.1 write.2 es)) :
    motive (es.setAll writes) :=
  List.foldlRecOn writes _ h fun es hes write hwrite => hset es write hwrite hes

/-- Off the ways of what is written nothing changes. -/
theorem walk?_setAll_of_diverges (h : ∀ write ∈ writes, Diverges write.1 q) (es : Entries) :
    walk? q (.map (es.setAll writes)) = walk? q (.map es) := by
  refine setAll_induction (motive := fun fs => walk? q (.map fs) = walk? q (.map es)) rfl ?_
  intro fs write hwrite hfs
  rw [Value.walk?_setEntries_of_diverges (h write hwrite), hfs]

/-- A leaf that is found after writing a leaf has been written, or was there before. -/
theorem walk?_setEntries_leaf (hp : p ≠ []) (hv : v.isMap = false) (hw : w.isMap = false)
    (h : walk? q (.map (Value.setEntries p v es)) = some w) :
    (q = p ∧ w = v) ∨ walk? q (.map es) = some w := by
  rcases Value.walk?_setEntries_cases hp h with ⟨r, rfl, hr⟩ | hold | ⟨-, hmap⟩
  · cases r with
    | nil =>
      cases hr
      exact .inl ⟨List.append_nil p, rfl⟩
    | cons name rest =>
      obtain ⟨inner, mark, rfl⟩ := Value.exists_map_of_walk? hr
      cases hv
  · exact .inr hold
  · rw [hw] at hmap
    cases hmap

/-- A mapping that is found after writing a leaf is on the way to it, and not empty, or was there
before. -/
theorem ne_nil_of_walk?_setEntries {inner : Entries} {mark : Option Mark} (hp : p ≠ [])
    (hq : q ≠ []) (hv : v.isMap = false)
    (h : walk? q (.map (Value.setEntries p v es)) = some (.map inner mark)) :
    inner ≠ [] ∨ walk? q (.map es) = some (.map inner mark) := by
  rcases Value.walk?_setEntries_cases hp h with ⟨r, rfl, hr⟩ | hold | ⟨⟨r, rfl⟩, -⟩
  · cases r with
    | nil =>
      cases hr
      cases hv
    | cons name rest =>
      obtain ⟨fs, mark, rfl⟩ := Value.exists_map_of_walk? hr
      cases hv
  · exact .inr hold
  · by_cases hr : r = []
    · subst hr
      rw [List.append_nil, Value.walk?_setEntries_self hq] at h
      cases h
      cases hv
    · rw [Value.walk?_setEntries_append hq hr] at h
      obtain ⟨fs, m, hfs⟩ := Value.exists_orEmptyMap_eq (walk? q (.map es))
      rw [hfs] at h
      cases h
      exact .inl (Value.setEntries_ne_nil hr v fs)

/-- **No mapping is empty** in what is written leaf by leaf. -/
theorem ne_nil_of_walk?_setAll (hwrites : AreLeaves writes) {inner : Entries} {mark : Option Mark}
    (hq : q ≠ []) (h : walk? q (.map (setAll [] writes)) = some (.map inner mark)) :
    inner ≠ [] := by
  revert h
  refine setAll_induction (motive := fun es => walk? q (.map es) = some (.map inner mark) →
    inner ≠ []) ?_ ?_
  · intro h
    cases q with
    | nil => exact absurd rfl hq
    | cons name rest => cases h
  · intro es write hwrite ih h
    exact (ne_nil_of_walk?_setEntries (hwrites.ne_nil write hwrite) hq
      (hwrites.leaf write hwrite) h).elim id ih

end Entries

/-- **The leaves of a tree that is written leaf by leaf** are what has been written. -/
theorem AreLeaves.walk?_iff {writes : List (Path × Value)} (h : AreLeaves writes) {q : Path}
    {v : Value} (hv : v.isMap = false) :
    walk? q (.map (Entries.setAll [] writes)) = some v ↔ (q, v) ∈ writes := by
  constructor
  · refine Entries.setAll_induction (motive := fun es => walk? q (.map es) = some v →
      (q, v) ∈ writes) ?_ ?_
    · intro hnil
      cases q with
      | nil =>
        cases hnil
        cases hv
      | cons name rest => cases hnil
    · intro es write hwrite ih hwalk
      have hleaf := h.leaf write hwrite
      rcases Entries.walk?_setEntries_leaf (h.ne_nil write hwrite) hleaf hv hwalk with
        ⟨rfl, rfl⟩ | hold
      · exact hwrite
      · exact ih hold
  · intro hmem
    have hq := h.ne_nil _ hmem
    have hothers : ∀ write ∈ writes, write = (q, v) ∨ Diverges write.1 q :=
      fun write hwrite => h.apart write hwrite _ hmem
    have hread := Value.at?_setAll hmem hq hothers [] none
    rwa [← Entries.map_setAll, Value.at?_of_ne_nil hq] at hread

/-- **Writing what a schema has at paths** keeps entries fitting. -/
theorem Schema.Fits.setAll {fields : List (String × Schema)} {es : Entries}
    {writes : List (Path × Value)} (h : Fits fields es)
    (hwrites : ∀ write ∈ writes, ∃ s, part? write.1 (.fields fields) = some s ∧ s.Accepts write.2) :
    Fits fields (es.setAll writes) := by
  refine Entries.setAll_induction h fun es write hwrite hes => ?_
  obtain ⟨s, hs, hsv⟩ := hwrites write hwrite
  exact hes.setEntries hs hsv

end ThemeSheet
