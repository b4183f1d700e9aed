import ThemeSheet.Proofs.Tree.Unshared

/-!
# Trees that are the same apart from some paths

Writing at a path that is there already changes what stands at that path, and nothing else: on the
way to it there are the same keys in the same order, and off the way the same values. Two trees
that differ by such writes alone are the same apart from the paths that were written, and this is
what `Value.SameApart` says. It says nothing about what stands at these paths or below them.

The paths are given by a predicate, which changes on the way down: below a name, what counts is how
the paths go on. Only names lead anywhere, so below a key of another kind nothing is left open.

## Main definitions

* `Value.SameApart`, and `Path.Below` for the way down;
* `Value.setAll`, several writes.

## Main results

* `Value.SameApart.symm`, `trans`: it is an equivalence;
* `Value.sameApart_set`, `sameApart_setAll`: writing where something stands;
* `Value.at?_setAll`: reading what was written;
* `Value.foldl_eq_setAll`: going through a list is writing;
* `Value.SameApart.walk?`, `walk?_eq_of_diverges`: what is found at a path that is left alone;
* `Value.SameApart.eq_of_walk?_eq`: trees that agree at the open paths, too, are equal.
-/

namespace ThemeSheet

/-- How the paths of a predicate go on below a key. -/
def Path.Below (paths : Path → Prop) : Key → Path → Prop
  | .text name, q => paths (name :: q)
  | _, _ => False

namespace Value

/-- Two values have the same keys in the same order, and the same values elsewhere, as long as none
of the paths is reached. What stands where a path ends is left open. -/
inductive SameApart : (Path → Prop) → Value → Value → Prop
  | reached {paths : Path → Prop} {v w : Value} (h : paths []) : SameApart paths v w
  | refl (paths : Path → Prop) (v : Value) : SameApart paths v v
  | entries {paths : Path → Prop} {es fs : Entries} {mark : Option Mark}
      (hd : Entries.Distinct es) (hkeys : es.map Prod.fst = fs.map Prod.fst)
      (h : ∀ k v w, Entries.get? k es = some v → Entries.get? k fs = some w →
        SameApart (Path.Below paths k) v w) :
      SameApart paths (.map es mark) (.map fs mark)

namespace SameApart

open ThemeSheet.Path (Diverges)

variable {paths : Path → Prop} {u v w : Value} {es : Entries} {mark : Option Mark} {q : Path}

/-! ### An equivalence -/

theorem symm (h : SameApart paths v w) : SameApart paths w v := by
  induction h with
  | reached h => exact .reached h
  | refl paths v => exact .refl paths v
  | entries hd hkeys _ ih =>
    exact .entries ((Entries.distinct_congr hkeys).mp hd) hkeys.symm
      fun k v w hv hw => ih k w v hw hv

theorem trans (h : SameApart paths u v) (h' : SameApart paths v w) : SameApart paths u w := by
  induction h generalizing w with
  | reached h => exact .reached h
  | refl => exact h'
  | entries hd hkeys hsame ih =>
    cases h' with
    | reached h => exact .reached h
    | refl => exact .entries hd hkeys hsame
    | entries _ hkeys' hsame' =>
      refine .entries hd (hkeys.trans hkeys') fun k a c ha hc => ?_
      obtain ⟨b, hb⟩ := Entries.exists_get?_of_keys hkeys ha
      exact ih k a b ha hb (hsame' k b c hb hc)

/-! ### What is left alone -/

/-- What is no mapping is the same. -/
theorem eq_of_not_map (h : SameApart paths v w) (hnil : ¬ paths []) (hv : v.isMap = false) :
    w = v := by
  cases h with
  | reached h => exact absurd h hnil
  | refl => rfl
  | entries => cases hv

/-- A mapping has the same keys in the same order. -/
theorem exists_map (h : SameApart paths (.map es mark) w) (hnil : ¬ paths []) :
    ∃ fs, w = .map fs mark ∧ es.map Prod.fst = fs.map Prod.fst := by
  cases h with
  | reached h => exact absurd h hnil
  | refl => exact ⟨es, rfl, rfl⟩
  | entries _ hkeys _ => exact ⟨_, rfl, hkeys⟩

/-- **What is found at a path that is not reached**: nothing in either tree, or in both of them
something that is the same apart from how the paths go on. -/
theorem walk? (h : SameApart paths v w) (hq : ∀ p, paths p → ¬ p <+: q) :
    (v.walk? q = none ∧ w.walk? q = none) ∨ ∃ v' w', v.walk? q = some v' ∧
      w.walk? q = some w' ∧ SameApart (fun r => paths (q ++ r)) v' w' := by
  induction q generalizing paths v w with
  | nil => exact .inr ⟨v, w, rfl, rfl, h⟩
  | cons name rest ih =>
    cases h with
    | reached h => exact absurd List.nil_prefix (hq [] h)
    | refl =>
      cases hv : v.walk? (name :: rest) with
      | none => exact .inl ⟨rfl, rfl⟩
      | some v' => exact .inr ⟨v', v', rfl, rfl, .refl _ v'⟩
    | @entries _ es fs mark hd hkeys hsame =>
      rw [walk?_cons_map, walk?_cons_map, Entries.named?, Entries.named?]
      cases hes : Entries.get? (.text name) es with
      | none =>
        rw [Entries.get?_eq_none_of_keys hkeys hes]
        exact .inl ⟨rfl, rfl⟩
      | some a =>
        obtain ⟨b, hb⟩ := Entries.exists_get?_of_keys hkeys hes
        rw [hb, Option.bind_some, Option.bind_some]
        exact ih (hsame _ a b hes hb) fun p hp hpre =>
          hq (name :: p) hp (List.cons_prefix_cons.mpr ⟨rfl, hpre⟩)

/-- What is found in one has something in its place in the other. -/
theorem exists_walk? (h : SameApart paths v w) (hq : ∀ p, paths p → ¬ p <+: q)
    (hu : v.walk? q = some u) :
    ∃ u', w.walk? q = some u' ∧ SameApart (fun r => paths (q ++ r)) u u' ∧ ¬ paths (q ++ []) := by
  obtain ⟨hnone, -⟩ | ⟨v', w', hv, hw, hsame⟩ := h.walk? hq
  · rw [hnone] at hu
    cases hu
  · cases hu.symm.trans hv
    refine ⟨w', hw, hsame, ?_⟩
    rw [List.append_nil]
    exact fun hp => hq q hp List.prefix_rfl

/-- What is no mapping is found in both. -/
theorem walk?_of_not_map (h : SameApart paths v w) (hq : ∀ p, paths p → ¬ p <+: q)
    (hu : v.walk? q = some u) (hmap : u.isMap = false) : w.walk? q = some u := by
  obtain ⟨u', hw, hsame, hnil⟩ := h.exists_walk? hq hu
  rw [hw, hsame.eq_of_not_map hnil hmap]

/-- A mapping that is found in one has the keys of the one that is found in the other. -/
theorem exists_walk?_map (h : SameApart paths v w) (hq : ∀ p, paths p → ¬ p <+: q)
    (hes : v.walk? q = some (.map es mark)) :
    ∃ fs, w.walk? q = some (.map fs mark) ∧ es.map Prod.fst = fs.map Prod.fst := by
  obtain ⟨u', hw, hsame, hnil⟩ := h.exists_walk? hq hes
  obtain ⟨fs, rfl, hkeys⟩ := hsame.exists_map hnil
  exact ⟨fs, hw, hkeys⟩

/-! ### Agreeing at the paths, too -/

/-- **Trees that are the same apart from some paths, and agree at them, are equal.** -/
theorem eq_of_walk?_eq (h : SameApart paths v w)
    (hagree : ∀ p, paths p → v.walk? p = w.walk? p) : v = w := by
  induction h with
  | reached h => exact Option.some.inj (hagree [] h)
  | refl => rfl
  | @entries paths es fs mark hd hkeys _ ih =>
    refine congrArg (Value.map · mark) (Entries.ext_get? hd hkeys fun k => ?_)
    cases hes : Entries.get? k es with
    | none => exact (Entries.get?_eq_none_of_keys hkeys hes).symm
    | some a =>
      obtain ⟨b, hb⟩ := Entries.exists_get?_of_keys hkeys hes
      rw [hb, ih k a b hes hb]
      intro p hp
      cases k with
      | text name =>
        have hname := hagree (name :: p) hp
        rw [walk?_cons_map, walk?_cons_map, Entries.named?, Entries.named?, hes, hb] at hname
        exact hname
      | _ => exact hp.elim

/-- Trees that are the same apart from no path are equal. -/
theorem eq_of_forall_not (h : SameApart paths v w) (hnone : ∀ p, ¬ paths p) : v = w :=
  h.eq_of_walk?_eq fun p hp => absurd hp (hnone p)

/-- **Off the ways of the paths nothing differs.** -/
theorem walk?_eq_of_diverges (h : SameApart paths v w) (hq : ∀ p, paths p → Diverges p q) :
    v.walk? q = w.walk? q := by
  rcases h.walk? fun p hp => (hq p hp).1 with ⟨hv, hw⟩ | ⟨v', w', hv, hw, hsame⟩
  · rw [hv, hw]
  · rw [hv, hw, hsame.eq_of_forall_not fun r hr => (hq _ hr).2 (List.prefix_append q r)]

end SameApart

/-! ### Writing -/

theorem sameApart_setEntries {paths : Path → Prop} {p : Path} {es : Entries} (h : paths p)
    (hes : es.AreTrees) {u : Value} {mark : Option Mark} (hu : walk? p (.map es mark) = some u)
    (v : Value) : SameApart paths (.map es mark) (.map (setEntries p v es) mark) := by
  induction p generalizing paths es mark with
  | nil => exact .reached h
  | cons name rest ih =>
    rw [walk?_cons_map, Option.bind_eq_some_iff] at hu
    obtain ⟨old, hold, hu⟩ := hu
    -- One entry is written, and it was there.
    have hone : ∀ new, SameApart (fun q => paths (name :: q)) old new →
        SameApart paths (.map es mark) (.map (Entries.insert (.text name) new es) mark) := by
      intro new hnew
      have hsome : (Entries.get? (.text name) es).isSome = true := by
        rw [← Entries.named?, hold]
        rfl
      refine .entries hes.distinct (by rw [Entries.keys_insert, if_pos hsome])
        fun k a b ha hb => ?_
      rw [Entries.get?_insert] at hb
      by_cases hk : k.agrees (.text name) = true
      · rw [Key.agrees_comm, Key.text_agrees_iff] at hk
        subst hk
        rw [if_pos (Key.agrees_self _)] at hb
        cases hb
        cases hold.symm.trans ha
        exact hnew
      · rw [if_neg hk, ha] at hb
        cases hb
        exact .refl _ a
    cases rest with
    | nil => exact hone v (.reached h)
    | cons other rest =>
      obtain ⟨fs, m, rfl⟩ := exists_map_of_walk? hu
      rw [setEntries_cons_cons, hold]
      exact hone _ (ih h (isTree_map.mp (hes.named? hold)).2 hu)

/-- **Writing where something stands** changes nothing elsewhere. -/
theorem sameApart_set {paths : Path → Prop} {p : Path} {tree u : Value} (h : paths p)
    (htree : tree.IsTree) (hu : tree.walk? p = some u) (v : Value) :
    SameApart paths tree (tree.set p v) := by
  cases tree with
  | map es mark => exact sameApart_setEntries h (isTree_map.mp htree).2 hu v
  | _ => exact .refl _ _

/-! ### Several writes -/

/-- Writes values at paths, one after the other. -/
def setAll (tree : Value) (writes : List (Path × Value)) : Value :=
  writes.foldl (fun tree write => tree.set write.1 write.2) tree

section SetAll

open ThemeSheet.Path (Diverges)

variable {tree v : Value} {p q : Path} {writes : List (Path × Value)}

@[simp] theorem setAll_nil (tree : Value) : tree.setAll [] = tree := rfl

theorem setAll_cons (tree : Value) (write : Path × Value) (writes : List (Path × Value)) :
    tree.setAll (write :: writes) = (tree.set write.1 write.2).setAll writes := rfl

theorem setAll_append (tree : Value) (writes others : List (Path × Value)) :
    tree.setAll (writes ++ others) = (tree.setAll writes).setAll others := List.foldl_append

/-- Something that is kept by single writes is kept by all of them. -/
theorem setAll_induction {motive : Value → Prop} (h : motive tree)
    (hset : ∀ tree, ∀ write ∈ writes, motive tree → motive (tree.set write.1 write.2)) :
    motive (tree.setAll writes) :=
  List.foldlRecOn writes _ h fun tree htree write hwrite => hset tree write hwrite htree

theorem IsTree.set (h : tree.IsTree) (p : Path) (hv : v.IsTree) : (tree.set p v).IsTree :=
  (h.content.set (fun _ _ => trivial) hv.content).isTree

/-- Nothing changes off the ways of what is written. -/
theorem at?_setAll_of_diverges (h : ∀ write ∈ writes, Diverges write.1 q) (tree : Value) :
    (tree.setAll writes).at? q = tree.at? q :=
  setAll_induction (motive := fun t => t.at? q = tree.at? q) rfl fun t write hwrite ht => by
    rw [at?_set_of_diverges (h write hwrite), ht]

/-- **Read after several writes**, where no other write comes in the way. -/
theorem at?_setAll (hmem : (p, v) ∈ writes) (hp : p ≠ [])
    (hothers : ∀ write ∈ writes, write = (p, v) ∨ Diverges write.1 p) (es : Entries)
    (mark : Option Mark) : ((Value.map es mark).setAll writes).at? p = some v := by
  induction writes generalizing es with
  | nil => cases hmem
  | cons write writes ih =>
    obtain ⟨-, hothers⟩ := List.forall_mem_cons.mp hothers
    rw [setAll_cons]
    by_cases hlater : (p, v) ∈ writes
    · exact ih hlater hothers _
    · have hdiv : ∀ other ∈ writes, Diverges other.1 p := by
        intro other hother
        refine (hothers other hother).resolve_left fun heq => hlater ?_
        rwa [← heq]
      cases (List.mem_cons.mp hmem).resolve_right hlater
      rw [at?_setAll_of_diverges hdiv, at?_set_self hp]

/-- Writing what is there already changes nothing. -/
theorem setAll_eq_self (h : ∀ write ∈ writes, tree.at? write.1 = some write.2) :
    tree.setAll writes = tree :=
  setAll_induction (motive := fun t => t = tree) rfl fun t write hwrite ht => by
    rw [ht, set_of_at? (h write hwrite)]

/-- Going through a list is writing, if every element of it is, as long as something is kept. -/
theorem foldl_eq_setAll {α : Type} {f : Value → α → Value} {writes : α → List (Path × Value)}
    {motive : Value → Prop} {l : List α} {tree : Value} (h : motive tree)
    (hstep : ∀ tree, motive tree → ∀ a ∈ l, f tree a = tree.setAll (writes a))
    (hkeep : ∀ tree, motive tree → ∀ a ∈ l, motive (tree.setAll (writes a))) :
    l.foldl f tree = tree.setAll (l.flatMap writes) := by
  induction l generalizing tree with
  | nil => rfl
  | cons a l ih =>
    rw [List.foldl_cons, List.flatMap_cons, setAll_append,
      hstep tree h a List.mem_cons_self]
    exact ih (hkeep tree h a List.mem_cons_self)
      (fun tree htree b hb => hstep tree htree b (List.mem_cons_of_mem a hb))
      (fun tree htree b hb => hkeep tree htree b (List.mem_cons_of_mem a hb))

/-- **Writing where something stands**, at paths none of which leads through another. -/
theorem sameApart_setAll {paths : Path → Prop} (htree : tree.IsTree)
    (hpaths : ∀ write ∈ writes, paths write.1) (hvalues : ∀ write ∈ writes, write.2.IsTree)
    (hthere : ∀ write ∈ writes, (tree.at? write.1).isSome = true)
    (hothers : ∀ write ∈ writes, ∀ other ∈ writes,
      write.1 = other.1 ∨ Diverges write.1 other.1) :
    SameApart paths tree (tree.setAll writes) := by
  induction writes generalizing tree with
  | nil => exact .refl _ _
  | cons write writes ih =>
    simp only [List.forall_mem_cons] at hpaths hvalues hthere
    obtain ⟨u, hu⟩ := Option.isSome_iff_exists.mp hthere.1
    have hne := ne_nil_of_at? hu
    have hfirst := sameApart_set hpaths.1 htree (walk?_of_at? hu) write.2
    refine hfirst.trans (ih (htree.set write.1 hvalues.1) hpaths.2 hvalues.2 ?_ ?_)
    · -- What is written stays there.
      intro other hother
      rcases hothers write List.mem_cons_self other (List.mem_cons_of_mem _ hother) with heq | hdiv
      · obtain ⟨es, mark, rfl⟩ : ∃ es mark, tree = .map es mark := by
          obtain ⟨name, rest, heq⟩ := List.exists_cons_of_ne_nil hne
          exact exists_map_of_walk? (heq ▸ walk?_of_at? hu)
        rw [← heq, at?_set_self hne]
        rfl
      · rw [at?_set_of_diverges hdiv]
        exact hthere.2 other hother
    · intro w hw other hother
      exact hothers w (List.mem_cons_of_mem _ hw) other (List.mem_cons_of_mem _ hother)

end SetAll

end Value

end ThemeSheet
