import ThemeSheet.Proofs.Tree.Content
import ThemeSheet.Tree.Shared

/-!
# Proper trees

The values that a text format without references can produce: no collection in them has a mark, so
each stands in one place only, and no mapping has two entries of one key. Nothing else is asked of
what stands in them, so everything that is built from such values by writing and removing entries is
such a value again.

## Main definitions

* `Value.IsTree`, `Tree`, and `Entries.AreTrees` for the entries of a mapping.

## Main results

* `Value.isTree_map`: what it means for a mapping;
* `Value.isTree_iff_hasContent`: trees are what anything may stand in;
* `Value.IsTree.isShared`: nothing in a tree has a mark.
-/

namespace ThemeSheet

namespace Value

mutual

/-- Whether no collection of a value has a mark and no mapping of it has two entries of one key. -/
def isTree : Value → Bool
  | .list vs mark => mark.isNone && itemsAreTrees vs
  | .map es mark => mark.isNone && (decide (Entries.Distinct es) && entriesAreTrees es)
  | _ => true

/-- Whether all items of a list are trees. -/
def itemsAreTrees : List Value → Bool
  | [] => true
  | v :: vs => isTree v && itemsAreTrees vs

/-- Whether all values of a mapping are trees. -/
def entriesAreTrees : List (Key × Value) → Bool
  | [] => true
  | (_, v) :: es => isTree v && entriesAreTrees es

end

/-- A value without shared collections, in which every key of a mapping stands once. -/
def IsTree (v : Value) : Prop := v.isTree = true

instance (v : Value) : Decidable v.IsTree := inferInstanceAs (Decidable (_ = true))

theorem entriesAreTrees_iff {es : List (Key × Value)} :
    entriesAreTrees es = true ↔ ∀ e ∈ es, e.2.IsTree := by
  induction es with
  | nil => simp [entriesAreTrees]
  | cons e es ih => rw [entriesAreTrees, Bool.and_eq_true, ih, List.forall_mem_cons]; rfl

theorem itemsAreTrees_iff {vs : List Value} :
    itemsAreTrees vs = true ↔ ∀ v ∈ vs, v.IsTree := by
  induction vs with
  | nil => simp [itemsAreTrees]
  | cons v vs ih => rw [itemsAreTrees, Bool.and_eq_true, ih, List.forall_mem_cons]; rfl

@[simp] theorem isTree_list {vs : List Value} {mark : Option Mark} :
    IsTree (.list vs mark) ↔ mark = none ∧ ∀ v ∈ vs, v.IsTree := by
  rw [IsTree, isTree, Bool.and_eq_true, Option.isNone_iff_eq_none, itemsAreTrees_iff]

end Value

/-- A value that is a tree. -/
abbrev Tree := { v : Value // v.IsTree }

namespace Entries

/-- Every key stands once, and every value is a tree. -/
structure AreTrees (es : Entries) : Prop where
  distinct : Distinct es
  value : ∀ e ∈ es, e.2.IsTree

end Entries

namespace Value

@[simp] theorem isTree_map {es : Entries} {mark : Option Mark} :
    IsTree (.map es mark) ↔ mark = none ∧ Entries.AreTrees es := by
  rw [IsTree, isTree, Bool.and_eq_true, Bool.and_eq_true, Option.isNone_iff_eq_none,
    decide_eq_true_eq, entriesAreTrees_iff]
  exact ⟨fun ⟨hm, hd, hv⟩ => ⟨hm, hd, hv⟩, fun ⟨hm, h⟩ => ⟨hm, h.distinct, h.value⟩⟩

end Value

namespace Value

/-- **Anything may stand in a tree.** -/
theorem isTree_iff_hasContent (v : Value) : v.IsTree ↔ v.HasContent .any := by
  match v with
  | .list vs mark =>
    rw [isTree_list, hasContent_list]
    refine and_congr_right fun _ => forall₂_congr fun w hw => ?_
    exact isTree_iff_hasContent w
  | .map es mark =>
    rw [isTree_map, hasContent_map]
    have hvalue : ∀ e ∈ es, e.2.IsTree ↔ e.2.HasContent .any := by
      rintro ⟨k, w⟩ he
      have hsize := Entries.sizeOf_lt_of_mem he
      exact isTree_iff_hasContent w
    exact and_congr_right fun _ =>
      ⟨fun h => ⟨h.distinct, fun _ _ => trivial, fun e he => (hvalue e he).mp (h.value e he)⟩,
        fun h => ⟨h.distinct, fun e he => (hvalue e he).mpr (h.value e he)⟩⟩
  | .null => exact iff_of_true rfl trivial
  | .bool _ => exact iff_of_true rfl trivial
  | .int _ => exact iff_of_true rfl trivial
  | .float _ => exact iff_of_true rfl trivial
  | .moment _ => exact iff_of_true rfl trivial
  | .text _ => exact iff_of_true rfl trivial
termination_by sizeOf v

theorem itemsBound_eq_zero (vs : List Value) (h : ∀ v ∈ vs, v.markBound = 0) :
    itemsBound vs = 0 := by
  induction vs with
  | nil => rfl
  | cons v vs ih =>
    obtain ⟨hv, hvs⟩ := List.forall_mem_cons.mp h
    rw [itemsBound, hv, ih hvs]
    rfl

theorem entriesBound_eq_zero (es : List (Key × Value)) (h : ∀ e ∈ es, e.2.markBound = 0) :
    entriesBound es = 0 := by
  induction es with
  | nil => rfl
  | cons e es ih =>
    obtain ⟨he, hes⟩ := List.forall_mem_cons.mp h
    rw [entriesBound, he, ih hes]
    rfl

theorem IsTree.content {v : Value} (h : v.IsTree) : v.HasContent .any :=
  (isTree_iff_hasContent v).mp h

/-- What is of some content is a tree. -/
theorem HasContent.isTree {c : Content} {v : Value} (h : v.HasContent c) : v.IsTree :=
  (isTree_iff_hasContent v).mpr (h.mono (fun _ _ => trivial) fun _ _ => trivial)

end Value

namespace Entries

open Value (IsTree)

variable {es : Entries} {v : Value}

theorem AreTrees.content (h : AreTrees es) : HaveContent .any es :=
  ⟨h.distinct, fun _ _ => trivial, fun e he => (h.value e he).content⟩

theorem HaveContent.areTrees {c : Content} (h : HaveContent c es) : AreTrees es :=
  ⟨h.distinct, fun e he => (h.value e he).isTree⟩

theorem areTrees_nil : AreTrees [] := (haveContent_nil (c := .any)).areTrees

theorem AreTrees.of_cons {e : Key × Value} (h : AreTrees (e :: es)) : AreTrees es :=
  h.content.of_cons.areTrees

theorem AreTrees.get? {key : Key} (h : AreTrees es) (hv : Entries.get? key es = some v) :
    v.IsTree := (h.content.get? hv).isTree

theorem AreTrees.named? {name : String} (h : AreTrees es)
    (hv : Entries.named? name es = some v) : v.IsTree := h.get? hv

/-! ### What is built from trees -/

theorem AreTrees.insert (h : AreTrees es) (key : Key) (hv : v.IsTree) :
    AreTrees (Entries.insert key v es) :=
  (h.content.insert trivial hv.content).areTrees

theorem AreTrees.erase (h : AreTrees es) (key : Key) : AreTrees (Entries.erase key es) :=
  (h.content.erase key).areTrees

theorem isTree_onMap {f : Entries → Entries} (hf : ∀ fs, AreTrees fs → AreTrees (f fs))
    (hv : v.IsTree) : (v.onMap f).IsTree :=
  (hasContent_onMap (fun fs hfs => (hf fs hfs.areTrees).content) hv.content).isTree

theorem AreTrees.setEntries (h : AreTrees es) (path : Path) (hv : v.IsTree) :
    AreTrees (Value.setEntries path v es) :=
  (h.content.setEntries (fun _ _ => trivial) hv.content).areTrees

theorem AreTrees.unsetEntries (h : AreTrees es) (path : Path) :
    AreTrees (Value.unsetEntries path es) :=
  (h.content.unsetEntries path).areTrees

end Entries

namespace Value

variable {p : Path} {v w : Value}

/-- Nothing in a tree has a mark. -/
theorem IsTree.markBound {v : Value} (h : v.IsTree) : v.markBound = 0 := by
  match v with
  | .list vs mark =>
    obtain ⟨rfl, hvs⟩ := isTree_list.mp h
    rw [Value.markBound, itemsBound_eq_zero vs fun w hw => IsTree.markBound (hvs w hw)]
    rfl
  | .map es mark =>
    obtain ⟨rfl, hes⟩ := isTree_map.mp h
    rw [Value.markBound, entriesBound_eq_zero es ?_]
    · rfl
    rintro ⟨k, w⟩ he
    have hsize := Entries.sizeOf_lt_of_mem he
    exact IsTree.markBound (hes.value _ he)
  | .null | .bool _ | .int _ | .float _ | .moment _ | .text _ => rfl
termination_by sizeOf v

theorem IsTree.isShared {v : Value} (h : v.IsTree) : v.isShared = false := by
  rw [Value.isShared, h.markBound]
  rfl

/-- Everything in a tree is a tree. -/
theorem IsTree.walk? (h : v.IsTree) (hw : v.walk? p = some w) : w.IsTree :=
  (h.content.walk? hw).isTree

theorem IsTree.at? (h : v.IsTree) (hw : v.at? p = some w) : w.IsTree := h.walk? (walk?_of_at? hw)

theorem IsTree.solid? (h : v.IsTree) (hw : v.solid? p = some w) : w.IsTree :=
  h.at? (solid?_eq_some_iff.mp hw).1

end Value

end ThemeSheet
