import ThemeSheet.Proofs.Tree.Unshared

/-!
# Trees that are built by writing

A tree that is built by writing at paths holds nothing but what was written, and the mappings on the
way to it. So a condition on values and their paths holds throughout the tree if it holds of all
that is written, and of mappings wherever they are on the way.

## Main definitions

* `Entries.Built`, a condition on all that can be reached in proper entries.

## Main results

* `Value.walk?_setEntries_cases`: what can be reached after writing;
* `Entries.Built.setEntries`: the condition is kept by writing.
-/

namespace ThemeSheet

open Value (walk?)

variable {fine fine' : Path → Value → Prop} {es : Entries} {mark : Option Mark} {v w : Value}
  {p q : Path}

/-- **What can be reached after writing** is part of what was written, or was there before, or is a
mapping on the way. -/
theorem Value.walk?_setEntries_cases (hp : p ≠ [])
    (h : walk? q (.map (setEntries p v es) mark) = some w) :
    (∃ r, q = p ++ r ∧ walk? r v = some w) ∨ walk? q (.map es mark) = some w ∨
      (q <+: p ∧ w.isMap = true) := by
  by_cases hpq : p <+: q
  · obtain ⟨r, rfl⟩ := hpq
    rw [walk?_append, walk?_setEntries_self hp, Option.bind_some] at h
    exact .inl ⟨r, rfl, h⟩
  by_cases hqp : q <+: p
  · refine .inr (.inr ⟨hqp, ?_⟩)
    obtain ⟨r, rfl⟩ := hqp
    by_cases hq : q = []
    · subst hq
      cases h
      rfl
    · have hr : r ≠ [] := by
        rintro rfl
        exact hpq (by simp)
      rw [walk?_setEntries_append hq hr] at h
      obtain ⟨fs, m, hfs⟩ := exists_orEmptyMap_eq (walk? q (.map es mark))
      rw [hfs] at h
      cases h
      rfl
  · rw [walk?_setEntries_of_diverges ⟨hpq, hqp⟩] at h
    exact .inr (.inl h)

namespace Entries

/-- Proper entries in which a condition on values and their paths holds of all that can be
reached. -/
structure Built (fine : Path → Value → Prop) (es : Entries) : Prop where
  trees : es.AreTrees
  fine : ∀ q v, q ≠ [] → walk? q (.map es) = some v → fine q v

theorem built_nil (fine : Path → Value → Prop) : Built fine [] := by
  refine ⟨areTrees_nil, fun q v hq hv => ?_⟩
  cases q with
  | nil => exact absurd rfl hq
  | cons name rest => cases hv

theorem Built.mono (h : Built fine es) (himp : ∀ q v, fine q v → fine' q v) : Built fine' es :=
  ⟨h.trees, fun q v hq hv => himp q v (h.fine q v hq hv)⟩

/-- **Writing keeps a condition** that holds of what is written and of mappings on the way. -/
theorem Built.setEntries (h : Built fine es) (hp : p ≠ []) (htree : v.IsTree)
    (hway : ∀ q w, q <+: p → w.isMap = true → fine q w)
    (hv : ∀ r w, walk? r v = some w → fine (p ++ r) w) :
    Built fine (Value.setEntries p v es) := by
  refine ⟨h.trees.setEntries p htree, fun q w hq hw => ?_⟩
  rcases Value.walk?_setEntries_cases hp hw with ⟨r, rfl, hr⟩ | hold | ⟨hstart, hmap⟩
  · exact hv r w hr
  · exact h.fine q w hq hold
  · exact hway q w hstart hmap

end Entries

end ThemeSheet
