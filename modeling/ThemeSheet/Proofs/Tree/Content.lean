import ThemeSheet.Proofs.Tree.Paths
import ThemeSheet.Text.Digit

/-!
# What stands in a tree

A property of single keys and of single values that are no collections becomes a property of trees:
all that stands in a tree has it. What is built from such trees, by writing and removing entries and
by changing what is inside them, is such a tree again, provided that what is written has the
property too. Compiling writes names, truth values and the number of the current version on its own,
so these have to be among what may stand in a tree.

A tree in this sense is proper: no collection of it has a mark, and no mapping of it has two entries
of one key.

## Main definitions

* `Content`, what may stand in a tree;
* `Value.HasContent`, and `Entries.HaveContent` for the entries of a mapping;
* `Value.OccursIn`, `Key.OccursIn`.

## Main results

* `Value.hasContent_map`, `Value.hasContent_list`: what it means for collections;
* `Value.HasContent.of_occurs`: a content that has all which occurs in a tree;
* `Entries.HaveContent.insert`, `erase`, `setEntries`, `unsetEntries`, `modifyMap`, `mapEach`;
* `Value.HasContent.walk?`: what stands in a part of a tree stands in the tree.
-/

namespace ThemeSheet

/-- What may stand in a tree: keys, and values that are no collections. -/
structure Content where
  key : Key → Prop
  leaf : Value → Prop
  /-- Names without digits. -/
  name : ∀ s : String, s.toList.any Text.isAsciiDigit = false → key (.text s)
  flag : ∀ b, leaf (.bool b)
  /-- The number of the current version. -/
  version : leaf (.int 2)

namespace Content

/-- Anything may stand in a tree. -/
def any : Content := ⟨fun _ => True, fun _ => True, fun _ _ => trivial, fun _ => trivial, trivial⟩

/-- Any name may be a key. -/
def TakesNames (c : Content) : Prop := ∀ s, c.key (.text s)

theorem takesNames_any : any.TakesNames := fun _ => trivial

end Content

namespace Value

mutual

/-- A proper tree of which all keys and leaves are of some content. -/
def HasContent (c : Content) : Value → Prop
  | .list vs mark => mark = none ∧ ItemsHaveContent c vs
  | .map es mark => mark = none ∧ Entries.Distinct es ∧ EntriesHaveContent c es
  | v => c.leaf v

/-- All items of a list are of some content. -/
def ItemsHaveContent (c : Content) : List Value → Prop
  | [] => True
  | v :: vs => HasContent c v ∧ ItemsHaveContent c vs

/-- All keys and values of a mapping are of some content. -/
def EntriesHaveContent (c : Content) : List (Key × Value) → Prop
  | [] => True
  | (k, v) :: es => (c.key k ∧ HasContent c v) ∧ EntriesHaveContent c es

end

variable {c : Content}

theorem itemsHaveContent_iff {vs : List Value} :
    ItemsHaveContent c vs ↔ ∀ v ∈ vs, v.HasContent c := by
  induction vs with
  | nil => simp [ItemsHaveContent]
  | cons v vs ih => rw [ItemsHaveContent, ih, List.forall_mem_cons]

theorem entriesHaveContent_iff {es : List (Key × Value)} :
    EntriesHaveContent c es ↔ ∀ e ∈ es, c.key e.1 ∧ e.2.HasContent c := by
  induction es with
  | nil => simp [EntriesHaveContent]
  | cons e es ih => rw [EntriesHaveContent, ih, List.forall_mem_cons]

theorem hasContent_list {vs : List Value} {mark : Option Mark} :
    HasContent c (.list vs mark) ↔ mark = none ∧ ∀ v ∈ vs, v.HasContent c := by
  rw [HasContent, itemsHaveContent_iff]

end Value

namespace Entries

/-- Every key stands once, and all keys and values are of some content. -/
structure HaveContent (c : Content) (es : Entries) : Prop where
  distinct : Distinct es
  key : ∀ e ∈ es, c.key e.1
  value : ∀ e ∈ es, e.2.HasContent c

end Entries

namespace Value

theorem hasContent_map {c : Content} {es : Entries} {mark : Option Mark} :
    HasContent c (.map es mark) ↔ mark = none ∧ Entries.HaveContent c es := by
  rw [HasContent, entriesHaveContent_iff]
  exact ⟨fun ⟨hm, hd, h⟩ => ⟨hm, hd, fun e he => (h e he).1, fun e he => (h e he).2⟩,
    fun ⟨hm, h⟩ => ⟨hm, h.distinct, fun e he => ⟨h.key e he, h.value e he⟩⟩⟩

/-- A value stands in another, or is that one. -/
inductive OccursIn (w : Value) : Value → Prop
  | self : OccursIn w w
  | item {v : Value} {vs : List Value} {mark : Option Mark} (hv : v ∈ vs) (h : OccursIn w v) :
    OccursIn w (.list vs mark)
  | entry {e : Key × Value} {es : Entries} {mark : Option Mark} (he : e ∈ es)
    (h : OccursIn w e.2) : OccursIn w (.map es mark)

end Value

/-- A key stands in one of the mappings of a value. -/
def Key.OccursIn (k : Key) (v : Value) : Prop :=
  ∃ es mark, k ∈ es.map Prod.fst ∧ (Value.map es mark).OccursIn v

namespace Value

/-- **What is of some content is of any other** that has all of it which occurs. -/
theorem HasContent.of_occurs {c c' : Content} {v : Value} (h : v.HasContent c)
    (hkey : ∀ k, c.key k → k.OccursIn v → c'.key k)
    (hleaf : ∀ w, c.leaf w → w.OccursIn v → c'.leaf w) : v.HasContent c' := by
  match v with
  | .list vs mark =>
    rw [hasContent_list] at h ⊢
    refine ⟨h.1, fun w hw => HasContent.of_occurs (h.2 w hw) ?_ ?_⟩
    · rintro k hk ⟨fs, m, hmem, hfs⟩
      exact hkey k hk ⟨fs, m, hmem, .item hw hfs⟩
    · exact fun u hu hocc => hleaf u hu (.item hw hocc)
  | .map es mark =>
    rw [hasContent_map] at h ⊢
    refine ⟨h.1, h.2.distinct, fun e he => ?_, ?_⟩
    · exact hkey _ (h.2.key e he) ⟨es, mark, List.mem_map_of_mem he, .self⟩
    rintro ⟨k, w⟩ he
    have hsize := Entries.sizeOf_lt_of_mem he
    refine HasContent.of_occurs (h.2.value _ he) ?_ ?_
    · rintro k hk ⟨fs, m, hmem, hfs⟩
      exact hkey k hk ⟨fs, m, hmem, .entry he hfs⟩
    · exact fun u hu hocc => hleaf u hu (.entry he hocc)
  | .null => exact hleaf _ h .self
  | .bool _ => exact hleaf _ h .self
  | .int _ => exact hleaf _ h .self
  | .float _ => exact hleaf _ h .self
  | .moment _ => exact hleaf _ h .self
  | .text _ => exact hleaf _ h .self
termination_by sizeOf v

/-- What is of some content is of any other that has all of it. -/
theorem HasContent.mono {c c' : Content} (hkey : ∀ k, c.key k → c'.key k)
    (hleaf : ∀ v, c.leaf v → c'.leaf v) {v : Value} (h : v.HasContent c) : v.HasContent c' :=
  h.of_occurs (fun k hk _ => hkey k hk) fun w hw _ => hleaf w hw

end Value

namespace Entries

variable {c : Content} {es : Entries} {v : Value}

theorem haveContent_nil : HaveContent c [] := ⟨distinct_nil, by simp, by simp⟩

theorem HaveContent.of_cons {e : Key × Value} (h : HaveContent c (e :: es)) : HaveContent c es :=
  ⟨(distinct_cons.mp h.distinct).2, fun f hf => h.key f (List.mem_cons_of_mem e hf),
    fun f hf => h.value f (List.mem_cons_of_mem e hf)⟩

theorem HaveContent.sublist {fs : Entries} (h : HaveContent c fs) (hs : es.Sublist fs) :
    HaveContent c es :=
  ⟨h.distinct.sublist hs, fun e he => h.key e (hs.subset he), fun e he => h.value e (hs.subset he)⟩

theorem HaveContent.get? {key : Key} (h : HaveContent c es) (hv : Entries.get? key es = some v) :
    v.HasContent c := by
  obtain ⟨k, -, hm⟩ := mem_of_get? hv
  exact h.value _ hm

theorem HaveContent.named? {name : String} (h : HaveContent c es)
    (hv : Entries.named? name es = some v) : v.HasContent c := h.get? hv

/-- All keys of other entries that have the same keys are of the content, too. -/
theorem HaveContent.of_keys {fs : Entries} (h : HaveContent c es)
    (hkeys : fs.map Prod.fst = es.map Prod.fst) (hvalue : ∀ e ∈ fs, e.2.HasContent c) :
    HaveContent c fs := by
  refine ⟨(distinct_congr hkeys).mpr h.distinct, fun e he => ?_, hvalue⟩
  have hkey := List.mem_map_of_mem (f := Prod.fst) he
  rw [hkeys] at hkey
  obtain ⟨f, hf, heq⟩ := List.mem_map.mp hkey
  rw [← heq]
  exact h.key f hf

/-! ### What is built -/

theorem HaveContent.insert {key : Key} (h : HaveContent c es) (hkey : c.key key)
    (hv : v.HasContent c) : HaveContent c (Entries.insert key v es) := by
  refine ⟨h.distinct.insert key v, fun e he => ?_, fun e he => ?_⟩
  · have hmem := List.mem_map_of_mem (f := Prod.fst) he
    rw [keys_insert] at hmem
    have hold : e.1 ∈ es.map Prod.fst → c.key e.1 := fun hin =>
      let ⟨f, hf, heq⟩ := List.mem_map.mp hin
      heq ▸ h.key f hf
    split at hmem
    · exact hold hmem
    · rcases List.mem_append.mp hmem with hmem | hmem
      · exact hold hmem
      · rwa [List.mem_singleton.mp hmem]
  · rcases mem_insert he with ⟨-, heq⟩ | he
    · rwa [heq]
    · exact h.value e he

theorem HaveContent.erase (h : HaveContent c es) (key : Key) :
    HaveContent c (Entries.erase key es) :=
  h.sublist (erase_sublist key es)

theorem hasContent_onMap {f : Entries → Entries}
    (hf : ∀ fs, HaveContent c fs → HaveContent c (f fs)) (hv : v.HasContent c) :
    (v.onMap f).HasContent c := by
  cases v with
  | map fs mark =>
    obtain ⟨rfl, hfs⟩ := Value.hasContent_map.mp hv
    exact Value.hasContent_map.mpr ⟨rfl, hf fs hfs⟩
  | _ => exact hv

theorem HaveContent.modifyMap (h : HaveContent c es) (name : String) {f : Entries → Entries}
    (hf : ∀ fs, HaveContent c fs → HaveContent c (f fs)) :
    HaveContent c (Entries.modifyMap name f es) := by
  refine h.of_keys (keys_modifyMap name f es) ?_
  have hvalue := h.value
  clear h
  induction es with
  | nil => simp [Entries.modifyMap]
  | cons e es ih =>
    obtain ⟨he, hes⟩ := List.forall_mem_cons.mp hvalue
    rw [Entries.modifyMap]
    split
    · exact List.forall_mem_cons.mpr ⟨hasContent_onMap hf he, hes⟩
    · exact List.forall_mem_cons.mpr ⟨he, ih hes⟩

theorem HaveContent.mapEach (h : HaveContent c es) {f : Entries → Entries}
    (hf : ∀ fs, HaveContent c fs → HaveContent c (f fs)) :
    HaveContent c (Entries.mapEach f es) := by
  refine h.of_keys (keys_mapEach f es) fun e he => ?_
  obtain ⟨e', he', rfl⟩ := List.mem_map.mp he
  exact hasContent_onMap hf (h.value e' he')

theorem hasContent_orEmptyMap {o : Option Value} (h : ∀ v, o = some v → v.HasContent c) :
    (Value.orEmptyMap o).HasContent c := by
  unfold Value.orEmptyMap
  split
  · exact h _ rfl
  · exact Value.hasContent_map.mpr ⟨rfl, haveContent_nil⟩

theorem HaveContent.setEntries {path : Path} (h : HaveContent c es)
    (hpath : ∀ name ∈ path, c.key (.text name)) (hv : v.HasContent c) :
    HaveContent c (Value.setEntries path v es) := by
  induction path generalizing es with
  | nil => exact h
  | cons name rest ih =>
    obtain ⟨hname, hrest⟩ := List.forall_mem_cons.mp hpath
    cases rest with
    | nil => exact h.insert hname hv
    | cons other rest =>
      rw [Value.setEntries_cons_cons]
      exact h.insert hname (hasContent_onMap (fun fs hfs => ih hfs hrest)
        (hasContent_orEmptyMap fun w hw => h.named? hw))

theorem HaveContent.unsetEntries (h : HaveContent c es) (path : Path) :
    HaveContent c (Value.unsetEntries path es) := by
  induction path generalizing es with
  | nil => exact h
  | cons name rest ih =>
    cases rest with
    | nil => exact h.erase _
    | cons other rest => exact h.modifyMap name fun fs hfs => ih hfs

end Entries

namespace Value

variable {c : Content} {v w : Value} {p : Path}

/-- Everything in a tree has the content of the tree. -/
theorem HasContent.walk? (h : v.HasContent c) (hw : v.walk? p = some w) : w.HasContent c := by
  induction p generalizing v with
  | nil => cases hw; exact h
  | cons name rest ih =>
    obtain ⟨es, mark, rfl⟩ := exists_map_of_walk? hw
    rw [walk?_cons_map, Option.bind_eq_some_iff] at hw
    obtain ⟨u, hu, hw⟩ := hw
    exact ih ((hasContent_map.mp h).2.named? hu) hw

theorem HasContent.at? (h : v.HasContent c) (hw : v.at? p = some w) : w.HasContent c :=
  h.walk? (walk?_of_at? hw)

theorem HasContent.solid? (h : v.HasContent c) (hw : v.solid? p = some w) : w.HasContent c :=
  h.at? (solid?_eq_some_iff.mp hw).1

theorem HasContent.set (h : v.HasContent c) (hp : ∀ name ∈ p, c.key (.text name))
    (hw : w.HasContent c) : (v.set p w).HasContent c :=
  Entries.hasContent_onMap (fun _ hes => hes.setEntries hp hw) h

end Value

end ThemeSheet
