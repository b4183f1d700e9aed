import ThemeSheet.Proofs.Theme.Overlay
import ThemeSheet.Proofs.Tree.Apart

/-!
# What an overlay takes and what it keeps

An overlay looks at the tree it is laid on in one way only: where the new tree has a mapping and
finds one. So what it has at a path is told from the new tree as far as that goes, and from the old
one where the new one ends. An overlay has the keys of the old tree, in their order, and behind them
those of the new one that are not there yet. Laid on once more, the new tree finds all that it has,
and changes nothing; and laid on trees that are the same apart from some paths, it leaves trees that
are the same apart from these paths.

## Main results

* `keys_overlay`: the keys of an overlay, in their order;
* `Value.walk?_overlayValue_of_some`, `walk?_overlayValue_of_missing`: a path of an overlay, told
  from the new tree;
* `Value.overlayValue_overlayValue`, `overlaid_self`: the new tree is laid on but once;
* `Value.SameApart.overlayValue`: trees that are the same apart from some paths stay so.
-/

namespace ThemeSheet

open Value (joined overlayValue_none overlayValue_map_map overlayValue_of_not_map)

/-! ### Keys -/

/-- **The keys of an overlay** are those of the old entries, and behind them the new ones. -/
theorem keys_overlay {new : Entries} (hd : Entries.Distinct new) (base : Entries) :
    (overlay base new).map Prod.fst = base.map Prod.fst ++
      (new.map Prod.fst).filter fun k => !Entries.contains k base := by
  induction new generalizing base with
  | nil => simp
  | cons e rest ih =>
    obtain ⟨hne, hd⟩ := Entries.distinct_cons.mp hd
    -- No later key is the one that has just been written.
    have hlater : ∀ v, ((rest.map Prod.fst).filter fun k =>
        !Entries.contains k (Entries.insert e.1 v base)) =
          (rest.map Prod.fst).filter fun k => !Entries.contains k base := by
      intro v
      refine List.filter_congr fun k hk => ?_
      obtain ⟨f, hf, rfl⟩ := List.mem_map.mp hk
      have hnot : f.1.agrees e.1 = false := by rw [Key.agrees_comm, hne f hf]
      rw [Entries.contains, Entries.contains, Entries.get?_insert, hnot]
      rfl
    rw [overlay_cons, ih hd, hlater, Entries.keys_insert, List.map_cons, List.filter_cons]
    cases hold : Entries.get? e.1 base with
    | none => simp [Entries.contains, hold]
    | some old => simp [Entries.contains, hold]

/-! ### Trees -/

/-- What is overlaid has nothing that neither of the two has. -/
theorem Entries.HaveContent.overlay {c : Content} {base : Entries} (hb : HaveContent c base)
    (new : Entries) (hn : HaveContent c new) : HaveContent c (ThemeSheet.overlay base new) := by
  match new with
  | [] => rwa [overlay_nil]
  | (k, v) :: rest =>
    have hk : c.key k := hn.key _ List.mem_cons_self
    have hv : v.HasContent c := hn.value _ List.mem_cons_self
    rw [overlay_cons]
    refine HaveContent.overlay (hb.insert hk ?_) rest hn.of_cons
    rcases Value.overlayValue_cases (Entries.get? k base) v with
      ⟨under, mark, inner, mark', hold, rfl, heq⟩ | heq
    · obtain ⟨rfl, hunder⟩ := Value.hasContent_map.mp (hb.get? hold)
      rw [heq]
      exact Value.hasContent_map.mpr
        ⟨rfl, HaveContent.overlay hunder inner (Value.hasContent_map.mp hv).2⟩
    · rwa [heq]
termination_by sizeOf new

namespace Value

theorem HasContent.overlaid {c : Content} {base new : Value} (hb : base.HasContent c)
    (hn : new.HasContent c) : (base.overlaid new).HasContent c := by
  rw [Value.overlaid]
  rcases overlayValue_cases (some base) new with ⟨under, mark, inner, mark', hold, rfl, heq⟩ | heq
  · cases hold
    obtain ⟨rfl, hunder⟩ := hasContent_map.mp hb
    rw [heq]
    exact hasContent_map.mpr ⟨rfl, hunder.overlay inner (hasContent_map.mp hn).2⟩
  · rwa [heq]

/-! ### Paths -/

/-- **Where the new tree has something**, the overlay has that, overlaid with what the old tree has
there. -/
theorem walk?_overlayValue_of_some {p : Path} {new v : Value} (hn : new.IsTree)
    (hv : new.walk? p = some v) (old : Option Value) :
    (overlayValue old new).walk? p = some (overlayValue (old.bind (walk? p)) v) := by
  induction p generalizing old new with
  | nil =>
    cases hv
    cases old <;> rfl
  | cons name rest ih =>
    obtain ⟨ns, mark, rfl⟩ := exists_map_of_walk? hv
    have hentry := hv
    rw [walk?_cons_map, Option.bind_eq_some_iff] at hentry
    obtain ⟨w, hw, hwv⟩ := hentry
    obtain ⟨-, htrees⟩ := isTree_map.mp hn
    by_cases hmap : ∃ base m, old = some (.map base m)
    · obtain ⟨base, m, rfl⟩ := hmap
      rw [overlayValue_map_map, walk?_cons_map, named?_overlay htrees.distinct, hw,
        joined_some_right, Option.bind_some, ih (htrees.named? hw) hwv, Option.bind_some,
        walk?_cons_map]
    · -- The old tree leads nowhere.
      have hnone : old.bind (walk? (name :: rest)) = none := by
        match old with
        | none => rfl
        | some (.map base m) => exact absurd ⟨base, m, rfl⟩ hmap
        | some .null | some (.bool _) | some (.int _) | some (.float _) | some (.moment _)
        | some (.text _) | some (.list _ _) => rfl
      rcases overlayValue_cases old (.map ns mark) with ⟨base, m, _, _, hold, _, _⟩ | heq
      · exact absurd ⟨base, m, hold⟩ hmap
      · rw [heq, hnone, overlayValue_none, hv]

/-- **Where a mapping of the new tree lacks a key of the path**, the overlay has what the old tree
has. -/
theorem walk?_overlayValue_of_missing {p rest : Path} {name : String} {new : Value}
    {es : Entries} {mark : Option Mark} (hn : new.IsTree) (hp : new.walk? p = some (.map es mark))
    (hmissing : Entries.named? name es = none) (old : Option Value) :
    (overlayValue old new).walk? (p ++ name :: rest) = old.bind (walk? (p ++ name :: rest)) := by
  have hsplit : old.bind (walk? (p ++ name :: rest)) =
      (old.bind (walk? p)).bind (walk? (name :: rest)) := by
    cases old with
    | none => rfl
    | some v => exact walk?_append p (name :: rest) v
  have hd : Entries.Distinct es := (isTree_map.mp (hn.walk? hp)).2.distinct
  rw [walk?_append, walk?_overlayValue_of_some hn hp, hsplit, Option.bind_some]
  match old.bind (walk? p) with
  | some (.map base m) =>
    rw [overlayValue_map_map, walk?_cons_map, named?_overlay hd, hmissing]
    rfl
  | none => rw [overlayValue_none, walk?_cons_map, hmissing]; rfl
  | some .null | some (.bool _) | some (.int _) | some (.float _) | some (.moment _)
  | some (.text _) | some (.list _ _) =>
    rw [overlayValue_of_old_not_map rfl, walk?_cons_map, hmissing]
    rfl

/-! ### Laying on once more -/

/-- Entries that have all of the new ones already stay as they are. -/
theorem overlay_eq_self {base new : Entries} (h : ∀ e ∈ new, ∃ v, Entries.get? e.1 base = some v ∧
    overlayValue (some v) e.2 = v) : overlay base new = base := by
  induction new with
  | nil => exact overlay_nil base
  | cons e rest ih =>
    obtain ⟨⟨v, hv, heq⟩, hrest⟩ := List.forall_mem_cons.mp h
    rw [overlay_cons, hv, heq, Entries.insert_of_get? hv, ih hrest]

/-- **An overlay has all of the new tree**: laid on once more, it changes nothing. -/
theorem overlayValue_overlayValue (new : Value) (hn : new.IsTree) (old : Option Value) :
    overlayValue (some (overlayValue old new)) new = overlayValue old new := by
  match new with
  | .map ns mark =>
    obtain ⟨-, hns⟩ := isTree_map.mp hn
    -- Whatever is overlaid with an entry of the new tree is overlaid with it but once.
    have hentry : ∀ e ∈ ns, ∀ o,
        overlayValue (some (overlayValue o e.2)) e.2 = overlayValue o e.2 :=
      fun e he o => overlayValue_overlayValue e.2 (hns.value e he) o
    rcases overlayValue_cases old (.map ns mark) with ⟨base, m, _, _, rfl, hnew, heq⟩ | heq
    · cases hnew
      have hhas : ∀ e ∈ ns, ∃ v, Entries.get? e.1 (overlay base ns) = some v ∧
          overlayValue (some v) e.2 = v := by
        intro e he
        refine ⟨_, ?_, hentry e he (Entries.get? e.1 base)⟩
        rw [get?_overlay hns.distinct, Entries.get?_of_mem hns.distinct he, joined_some_right]
      rw [heq, overlayValue_map_map, overlay_eq_self hhas]
    · have hhas : ∀ e ∈ ns, ∃ v, Entries.get? e.1 ns = some v ∧ overlayValue (some v) e.2 = v := by
        intro e he
        have hself := hentry e he none
        rw [overlayValue_none] at hself
        exact ⟨e.2, Entries.get?_of_mem hns.distinct he, hself⟩
      rw [heq, overlayValue_map_map, overlay_eq_self hhas]
  | .null | .bool _ | .int _ | .float _ | .moment _ | .text _ | .list _ _ => rfl
termination_by sizeOf new
decreasing_by
  have hsize := List.sizeOf_lt_of_mem he
  cases e
  simp only [Prod.mk.sizeOf_spec, map.sizeOf_spec] at hsize ⊢
  omega

theorem overlaid_overlaid {base new : Value} (hn : new.IsTree) :
    (base.overlaid new).overlaid new = base.overlaid new :=
  overlayValue_overlayValue new hn (some base)

theorem overlaid_self {tree : Value} (h : tree.IsTree) : tree.overlaid tree = tree := by
  have hself := overlayValue_overlayValue tree h none
  rwa [overlayValue_none] at hself

/-! ### Trees that are the same apart from some paths -/

mutual

/-- What two mappings have in common is kept by laying entries on both. -/
theorem sameApart_overlay {paths : Path → Prop} {es fs : Entries} {mark : Option Mark}
    (hd : Entries.Distinct es) (hkeys : es.map Prod.fst = fs.map Prod.fst)
    (h : ∀ k v w, Entries.get? k es = some v → Entries.get? k fs = some w →
      SameApart (Path.Below paths k) v w) (new : List (Key × Value)) :
    SameApart paths (.map (overlay es new) mark) (.map (overlay fs new) mark) := by
  match new with
  | [] =>
    rw [overlay_nil, overlay_nil]
    exact .entries hd hkeys h
  | (key, x) :: rest =>
    rw [overlay_cons, overlay_cons]
    refine sameApart_overlay (hd.insert key _) ?_ (fun k v w hv hw => ?_) rest
    · rw [Entries.keys_insert, Entries.keys_insert, Entries.isSome_get?_of_keys hkeys, hkeys]
    · rw [Entries.get?_insert] at hv hw
      by_cases hk : k.agrees key = true
      · rw [if_pos hk, ← Entries.get?_congr hk] at hv hw
        cases hv
        cases hw
        cases hes : Entries.get? k es with
        | none =>
          rw [Entries.get?_eq_none_of_keys hkeys hes]
          exact .refl _ _
        | some a =>
          obtain ⟨b, hb⟩ := Entries.exists_get?_of_keys hkeys hes
          rw [hb]
          exact (h k a b hes hb).overlayValue x
      · rw [if_neg hk] at hv hw
        exact h k v w hv hw
termination_by sizeOf new

/-- **Trees that are the same apart from some paths** are so after a tree is laid on both. -/
theorem SameApart.overlayValue {paths : Path → Prop} {v w : Value} (h : SameApart paths v w)
    (new : Value) :
    SameApart paths (ThemeSheet.overlayValue (some v) new)
      (ThemeSheet.overlayValue (some w) new) := by
  match new with
  | .map xs mark =>
    cases h with
    | reached h => exact .reached h
    | refl => exact .refl _ _
    | entries hd hkeys hsame =>
      rw [overlayValue_map_map, overlayValue_map_map]
      exact sameApart_overlay hd hkeys hsame xs
  | .null | .bool _ | .int _ | .float _ | .moment _ | .text _ | .list _ _ => exact .refl _ _
termination_by sizeOf new

end

end Value

end ThemeSheet
