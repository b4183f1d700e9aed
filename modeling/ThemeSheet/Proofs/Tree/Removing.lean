import ThemeSheet.Proofs.Tree.Apart

/-!
# Trees without some entries

Removing the entry at a path takes away what stands there and leaves everything off the way to it.
Several removals, none of whose paths leads through another, take away what stands at each of them;
in what order they come makes no difference to what can be read afterwards.

## Main definitions

* `Value.unsetAll`, several removals.

## Main results

* `Value.at?_unsetAll_of_mem`, `at?_unsetAll_of_diverges`: reading after several removals.
-/

namespace ThemeSheet.Value

open ThemeSheet.Path (Diverges)

variable {tree : Value} {p q : Path} {paths : List Path}

/-! ### One removal -/

theorem IsTree.unset (h : tree.IsTree) (p : Path) : (tree.unset p).IsTree :=
  Entries.isTree_onMap (fun _ hes => hes.unsetEntries p) h

/-- Nothing changes off the way of what is removed, whatever the tree is. -/
theorem at?_unset_of_diverges (h : Diverges p q) (tree : Value) :
    (tree.unset p).at? q = tree.at? q := by
  have hq : q ≠ [] := by
    rintro rfl
    exact absurd h (by simp)
  rw [at?_of_ne_nil hq, at?_of_ne_nil hq]
  cases tree with
  | map es mark => exact walk?_unsetEntries_of_diverges h es mark
  | _ => rfl

/-- **Read after removal.** -/
theorem walk?_unsetEntries_self {es : Entries} (h : p ≠ []) (hes : es.AreTrees)
    (mark : Option Mark) : walk? p (.map (unsetEntries p es) mark) = none := by
  induction p generalizing es mark with
  | nil => exact absurd rfl h
  | cons a rest ih =>
    cases rest with
    | nil => rw [walk?_singleton_map, unsetEntries, Entries.named?_erase hes.distinct, if_pos rfl]
    | cons b rest =>
      rw [unsetEntries_cons_cons, walk?_cons_map, Entries.named?_modifyMap, if_pos rfl]
      cases hv : Entries.named? a es with
      | none => rfl
      | some v =>
        cases v with
        | map fs m => exact ih (List.cons_ne_nil _ _) (isTree_map.mp (hes.named? hv)).2 m
        | _ => rfl

theorem at?_unset_self (h : tree.IsTree) (p : Path) : (tree.unset p).at? p = none := by
  cases p with
  | nil => rfl
  | cons name rest =>
    cases tree with
    | map es mark =>
      exact walk?_unsetEntries_self (List.cons_ne_nil _ _) (isTree_map.mp h).2 mark
    | _ => rfl

/-! ### Several removals -/

/-- Removes the entries at paths, one after the other. -/
def unsetAll (tree : Value) (paths : List Path) : Value :=
  paths.foldl (fun tree p => tree.unset p) tree

/-- Something that is kept by single removals is kept by all of them. -/
theorem unsetAll_induction {motive : Value → Prop} (h : motive tree)
    (hunset : ∀ tree, ∀ p ∈ paths, motive tree → motive (tree.unset p)) :
    motive (tree.unsetAll paths) :=
  List.foldlRecOn paths _ h fun tree htree p hp => hunset tree p hp htree

/-- Nothing changes off the ways of what is removed. -/
theorem at?_unsetAll_of_diverges (h : ∀ p ∈ paths, Diverges p q) (tree : Value) :
    (tree.unsetAll paths).at? q = tree.at? q :=
  unsetAll_induction (motive := fun t => t.at? q = tree.at? q) rfl fun t p hp ht => by
    rw [at?_unset_of_diverges (h p hp), ht]

/-- **Read after several removals**, where no other one comes in the way. -/
theorem at?_unsetAll_of_mem (htree : tree.IsTree) (hp : p ∈ paths)
    (hothers : ∀ q ∈ paths, q = p ∨ Diverges q p) : (tree.unsetAll paths).at? p = none := by
  induction paths generalizing tree with
  | nil => cases hp
  | cons q paths ih =>
    obtain ⟨-, hothers⟩ := List.forall_mem_cons.mp hothers
    by_cases hlater : p ∈ paths
    · exact ih (htree.unset q) hlater hothers
    · have hdiv : ∀ other ∈ paths, Diverges other p := by
        intro other hother
        refine (hothers other hother).resolve_left fun heq => hlater ?_
        rwa [← heq]
      cases (List.mem_cons.mp hp).resolve_right hlater
      exact (at?_unsetAll_of_diverges hdiv _).trans (at?_unset_self htree p)

end ThemeSheet.Value
