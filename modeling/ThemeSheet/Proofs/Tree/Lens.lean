import ThemeSheet.Proofs.Tree.Decidable
import ThemeSheet.Proofs.Tree.Removing

/-!
# Paths as lenses

A path reads, writes and removes at one place of a tree. What is written there is what is found
there, whatever stood on the way: a mapping takes the place of anything that is none, and nothing
could be read through that before. Of two writes the last one counts, and to write what is found
there changes nothing at all, not even an order. Removing takes away one entry of one mapping, so
where something new was written it gives back the tree.

A removal is seen from the mappings on the way to it, as well. The one that had the entry has lost
it; those further up have the keys that they had, and what is under the name that leads on is what
has changed.

## Main definitions

* `Value.HasLost`, of a tree that has lost what a path led to;
* `Value.IsLens`, the laws of a path.

## Main results

* `Value.set_set`, `Value.unset_set`: writing after writing, and removing after writing;
* `Value.walk?_unset_append`, `Value.hasLost_unset`: what is removed;
* `Value.isLens`: every path into a tree keeps the laws.
-/

namespace ThemeSheet

namespace Entries

variable {name : String} {es : Entries}

/-- The entries that are not under a name. -/
def besides (name : String) (es : Entries) : Entries := es.filter fun e => e.1 ≠ .text name

@[simp] theorem besides_cons (name : String) (e : Key × Value) (es : Entries) :
    besides name (e :: es) =
      if e.1 = .text name then besides name es else e :: besides name es := by
  rw [besides, List.filter_cons, ← besides]
  by_cases h : e.1 = .text name <;> simp [h]

theorem besides_eq_self (h : ∀ e ∈ es, e.1 ≠ .text name) : besides name es = es :=
  List.filter_eq_self.mpr fun e he => decide_eq_true (h e he)

/-- Removing a name leaves the other entries, in their order. -/
theorem erase_eq_besides (hd : Distinct es) (name : String) :
    erase (.text name) es = besides name es := by
  induction es with
  | nil => rfl
  | cons e es ih =>
    obtain ⟨hne, hd⟩ := distinct_cons.mp hd
    rw [erase, besides_cons]
    simp only [Key.text_agrees_iff]
    split
    next he =>
      refine (besides_eq_self fun f hf hkey => ?_).symm
      have hother := hne f hf
      rw [he, hkey, Key.agrees_self] at hother
      cases hother
    next => rw [ih hd]

/-- A change under a name leaves the other entries. -/
theorem besides_modifyMap (name : String) (f : Entries → Entries) (es : Entries) :
    besides name (modifyMap name f es) = besides name es := by
  induction es with
  | nil => rfl
  | cons e es ih =>
    rw [modifyMap, besides_cons]
    simp only [Key.text_agrees_iff]
    split
    next he => rw [besides_cons, if_pos he]
    next he => rw [besides_cons, if_neg he, ih]

end Entries

namespace Value

open ThemeSheet.Path (Diverges)

variable {t v w : Value} {p q rest : Path} {name : String} {es : Entries} {mark : Option Mark}

/-! ### Writing twice -/

theorem setEntries_setEntries (p : Path) (v w : Value) (es : Entries) :
    setEntries p w (setEntries p v es) = setEntries p w es := by
  induction p generalizing es with
  | nil => rfl
  | cons a rest ih =>
    cases rest with
    | nil => exact Entries.insert_insert _ w v es
    | cons b rest =>
      obtain ⟨fs, m, hfs⟩ := exists_orEmptyMap_eq (Entries.named? a es)
      rw [setEntries_cons_cons, setEntries_cons_cons, setEntries_cons_cons, hfs,
        Entries.named?_insert, if_pos rfl, onMap, orEmptyMap, onMap, onMap, ih,
        Entries.insert_insert]

/-- **What is written last is what is there.** -/
theorem set_set (p : Path) (t v w : Value) : (t.set p v).set p w = t.set p w := by
  cases t with
  | map es mark => rw [set, set, set, onMap, onMap, onMap, setEntries_setEntries]
  | _ => rfl

/-! ### Removing what was written -/

/-- Removing below a name removes from the mapping under it. -/
theorem unsetEntries_cons (h : q ≠ []) (es : Entries) :
    unsetEntries (name :: q) es = Entries.modifyMap name (unsetEntries q) es := by
  cases q with
  | nil => exact absurd rfl h
  | cons b rest => rfl

theorem unsetEntries_setEntries {parent : Entries} {m : Option Mark}
    (hparent : walk? p (.map es mark) = some (.map parent m))
    (hnone : Entries.named? name parent = none) (v : Value) :
    unsetEntries (p ++ [name]) (setEntries (p ++ [name]) v es) = es := by
  induction p generalizing es mark with
  | nil =>
    cases hparent
    exact Entries.erase_insert_of_get?_eq_none hnone v
  | cons a rest ih =>
    rw [walk?_cons_map, Option.bind_eq_some_iff] at hparent
    obtain ⟨w, hw, hparent⟩ := hparent
    obtain ⟨under, m', rfl⟩ := exists_map_of_walk?_map hparent
    have hne : rest ++ [name] ≠ [] := by simp
    have hwritten : Entries.named? a (Entries.insert (.text a)
        (.map (setEntries (rest ++ [name]) v under) m') es) =
          some (.map (setEntries (rest ++ [name]) v under) m') := by
      rw [Entries.named?_insert, if_pos rfl]
    rw [List.cons_append, setEntries_cons hne, hw, orEmptyMap, onMap, unsetEntries_cons hne,
      Entries.modifyMap_eq_insert hwritten, ih hparent, Entries.insert_insert,
      Entries.insert_of_get? hw]

/-- **Removing what is new leaves the tree**, if there was a mapping to write it into. -/
theorem unset_set {parent : Value} (hparent : t.walk? p = some parent)
    (hmap : parent.isMap = true) (hnone : t.at? (p ++ [name]) = none) (v : Value) :
    (t.set (p ++ [name]) v).unset (p ++ [name]) = t := by
  cases parent with
  | map fs m =>
    obtain ⟨es, mark, rfl⟩ := exists_map_of_walk?_map hparent
    rw [at?_of_ne_nil (by simp), walk?_append, hparent, Option.bind_some,
      walk?_singleton_map] at hnone
    rw [set, onMap, unset, onMap, unsetEntries_setEntries hparent hnone]
  | _ => cases hmap

/-! ### What is removed -/

/-- A value without the entry of a name, if it is a mapping. -/
def without (name : String) (v : Value) : Value := v.onMap (Entries.besides name)

/-- The keys of a mapping, in their order. -/
def keys? (v : Value) : Option (List Key) := v.entries?.map (List.map Prod.fst)

/-- **Read before where was removed.** The rest of the path is removed from what is on the way. -/
theorem walk?_unset_append (h : rest ≠ []) (q : Path) (t : Value) :
    (t.unset (q ++ rest)).walk? q = (t.walk? q).map fun u => u.unset rest := by
  induction q generalizing t with
  | nil => rfl
  | cons a q ih =>
    cases t with
    | map es mark =>
      rw [unset, onMap, List.cons_append, unsetEntries_cons (by simp [h]), walk?_cons_map,
        walk?_cons_map, Entries.named?_modifyMap, if_pos rfl]
      cases Entries.named? a es with
      | none => rfl
      | some u => exact ih u
    | _ => rfl

theorem unset_singleton (h : t.IsTree) (name : String) : t.unset [name] = t.without name := by
  cases t with
  | map es mark =>
    have hd := (isTree_map.mp h).2.distinct
    rw [unset, onMap, without, onMap, unsetEntries, Entries.erase_eq_besides hd]
  | _ => rfl

theorem keys?_unset_cons (h : rest ≠ []) (name : String) (t : Value) :
    (t.unset (name :: rest)).keys? = t.keys? := by
  cases t with
  | map es mark => simp [unset, onMap, unsetEntries_cons h, keys?, entries?, Entries.keys_modifyMap]
  | _ => rfl

theorem without_unset_cons (h : rest ≠ []) (name : String) (t : Value) :
    (t.unset (name :: rest)).without name = t.without name := by
  cases t with
  | map es mark =>
    rw [unset, onMap, unsetEntries_cons h, without, onMap, Entries.besides_modifyMap, without,
      onMap]
  | _ => rfl

/-- A tree has lost what a path led to, and nothing else. -/
structure HasLost (p : Path) (t t' : Value) : Prop where
  /-- Nothing is found at the path. -/
  gone : t'.lookup p = .absent
  /-- Off the way to it everything is found that was found. -/
  elsewhere : ∀ q, Diverges p q → t'.lookup q = t.lookup q
  /-- The mapping that had the entry has all others, in their order; it is the tree itself if the
  path has one name. -/
  parent : ∀ q name, p = q ++ [name] → t'.walk? q = (t.walk? q).map (without name)
  /-- A mapping further up has the same keys in the same order, and the same entries but the one
  that leads on. -/
  above : ∀ q name rest, p = q ++ name :: rest → rest ≠ [] →
    (t'.walk? q).map keys? = (t.walk? q).map keys? ∧
      (t'.walk? q).map (without name) = (t.walk? q).map (without name)

/-- **Removing takes away what a path leads to**, and nothing else. -/
theorem hasLost_unset (h : t.IsTree) (p : Path) : HasLost p t (t.unset p) := by
  refine ⟨?_, fun q hq => ?_, ?_, ?_⟩
  · rw [lookup, at?_unset_self h]
    rfl
  · rw [lookup, lookup, at?_unset_of_diverges hq]
  · rintro q name rfl
    rw [walk?_unset_append (by simp)]
    cases hu : t.walk? q with
    | none => rfl
    | some u => rw [Option.map_some, Option.map_some, unset_singleton (h.walk? hu)]
  · rintro q name rest rfl hrest
    rw [walk?_unset_append (by simp), Option.map_map, Option.map_map]
    constructor
    · congr 1
      funext u
      exact keys?_unset_cons hrest name u
    · congr 1
      funext u
      exact without_unset_cons hrest name u

/-! ### The laws of a path -/

theorem lookup_of_at? (h : t.at? p = some v) :
    t.lookup p = if v.isNull then .null else .present v := by
  rw [lookup, h]
  cases v <;> rfl

/-- The laws of reading, writing and removing at a path of a tree. -/
structure IsLens (p : Path) (t : Value) : Prop where
  /-- What is written is found. -/
  lookup_set : ∀ v, (t.set p v).lookup p = if v.isNull then .null else .present v
  /-- Off the way everything is found that was found. -/
  lookup_set_elsewhere : ∀ v q, Diverges p q → (t.set p v).lookup q = t.lookup q
  /-- What is written last counts. -/
  set_set : ∀ v w, (t.set p v).set p w = t.set p w
  /-- Writing what is found changes nothing. -/
  set_found : ∀ v, (t.lookup p).value? = some v → t.set p v = t
  /-- Removing takes away what the path leads to. -/
  hasLost : HasLost p t (t.unset p)
  /-- Removing what is new in a mapping leaves the tree. -/
  unset_set : ∀ v q name parent, p = q ++ [name] → t.walk? q = some parent →
    parent.isMap = true → t.lookup p = .absent → (t.set p v).unset p = t

/-- **Every path into a tree keeps the laws.** -/
theorem isLens (es : Entries) (h : (Value.map es).IsTree) (hp : p ≠ []) :
    IsLens p (.map es) where
  lookup_set v := lookup_of_at? (at?_set_self hp v es none)
  lookup_set_elsewhere v q hq := by rw [lookup, lookup, at?_set_of_diverges hq]
  set_set v w := Value.set_set p (.map es) v w
  set_found v hv := by
    rw [lookup, Lookup.value?_ofOption] at hv
    exact set_of_at? hv
  hasLost := hasLost_unset h p
  unset_set v q name parent heq hparent hmap habsent := by
    subst heq
    have hnone := congrArg Lookup.value? habsent
    rw [lookup, Lookup.value?_ofOption] at hnone
    exact Value.unset_set hparent hmap hnone v

/-- The first path leads through a text, which gives way to a mapping when something is written, and
a null is written there. The second path is new in the section. -/
theorem isLens_of_text :
    let blocks : Key × Value := (.text "blocks", .map [])
    let tree : Value :=
      .map [(.text "settings", .map [(.text "color", .text "red"), blocks]), (.int 1, .null)]
    let written : Value := .map [(.text "settings", .map [
      (.text "color", .map [(.text "palette", .null)]), blocks]), (.int 1, .null)]
    let palette : Path := ["settings", "color", "palette"]
    let spacing : Path := ["settings", "spacing"]
    (tree.IsTree ∧ palette ≠ [] ∧ spacing ≠ []) ∧ tree.set palette .null = written ∧
      tree.IsLens palette ∧ written.lookup palette = .null ∧
      written.lookup ["settings", "blocks"] = .present (.map []) ∧
      written.set palette .null = written ∧
      (tree.set spacing (.bool true)).unset spacing = tree := by
  intro blocks tree written palette spacing
  have htree : tree.IsTree := by decide +kernel
  have hpalette : palette ≠ [] := List.cons_ne_nil _ _
  have hspacing : spacing ≠ [] := List.cons_ne_nil _ _
  have hwritten : tree.set palette .null = written := by decide +kernel
  have hlens : tree.IsLens palette := isLens _ htree hpalette
  have hnull := hlens.lookup_set .null
  have hblocks := hlens.lookup_set_elsewhere .null ["settings", "blocks"] (by decide +kernel)
  have htwice := hlens.set_set .null .null
  have hnew := (isLens _ htree hspacing).unset_set (.bool true) ["settings"] "spacing"
    (.map [(.text "color", .text "red"), blocks]) rfl rfl rfl rfl
  rw [hwritten] at hnull hblocks htwice
  exact ⟨⟨htree, hpalette, hspacing⟩, hwritten, hlens, hnull, hblocks, htwice, hnew⟩

end Value

end ThemeSheet
