import ThemeSheet.Proofs.Theme.Overlay
import ThemeSheet.Proofs.Tree.KeyPaths
import ThemeSheet.Schema.Basic

/-!
# Conforming to a schema

Entries fit fields if each key stands once, is the name of a field, and has a value that the schema
of the field accepts: any value at a leaf, and at a section a mapping that has entries and whose
entries fit in turn. This is what pruning produces, and what it leaves as it is.

The predicate is a recursion on the tree with the cases of `Schema.pruneEntries`, so that the two
main facts are direct; whoever changes a tree uses its form by membership, `fits_iff`.

## Main definitions

* `Schema.Fits`, `Schema.Accepts`;
* `Schema.part?`, the part of a schema at a path, where a leaf goes on for ever;
* `Schema.staysInside`, of a path that does not go on below a leaf.

## Main results

* `Schema.pruneEntries_of_fits`: what fits is not changed by pruning;
* `Schema.fits_pruneEntries`: what is left by pruning a tree fits;
* `Schema.Fits.insert`, `erase`, `setEntries`, `overlay`: changes that keep entries fitting;
* `Schema.Fits.open`: on a way that stays inside the schema there are mappings only;
* `Schema.walk?_pruneEntries_eq_bind`: what pruning leaves at a path.
-/

namespace ThemeSheet

namespace Schema

mutual

/-- Each key stands once and has a field that accepts its value. -/
def Fits (fields : List (String × Schema)) : List (Key × Value) → Prop
  | [] => True
  | (k, v) :: rest =>
    (∀ e ∈ rest, k.agrees e.1 = false) ∧ Fits fields rest ∧
      match ofKey? fields k with
      | none => False
      | some .any => True
      | some (.fields sub) => FitsSection sub v

/-- The value is a mapping with entries that fit. -/
def FitsSection (fields : List (String × Schema)) : Value → Prop
  | .map es mark => mark = none ∧ es ≠ [] ∧ Fits fields es
  | _ => False

end

/-- Whether a schema accepts a value. -/
def Accepts : Schema → Value → Prop
  | .any, _ => True
  | .fields sub, v => FitsSection sub v

variable {fields sub : List (String × Schema)} {es : Entries} {v : Value} {s : Schema}

@[simp] theorem accepts_any (v : Value) : Accepts .any v := trivial

theorem isMap_of_fitsSection (h : FitsSection fields v) : v.isMap = true := by
  cases v with
  | map es mark => rfl
  | _ => exact absurd h id

theorem fitsSection_iff : FitsSection fields v ↔ ∃ es, v = .map es ∧ es ≠ [] ∧ Fits fields es := by
  constructor
  · intro h
    cases v with
    | map es mark =>
      rw [FitsSection] at h
      obtain ⟨rfl, hne, hfits⟩ := h
      exact ⟨es, rfl, hne, hfits⟩
    | _ => exact absurd (isMap_of_fitsSection h) Bool.false_ne_true
  · rintro ⟨es, rfl, hne, hfits⟩
    rw [FitsSection]
    exact ⟨rfl, hne, hfits⟩

theorem accepts_fields : Accepts (.fields sub) v ↔ ∃ es, v = .map es ∧ es ≠ [] ∧ Fits sub es :=
  fitsSection_iff

/-- What a field says of the value of a key. -/
theorem ofKey_match_iff {k : Key} :
    (match ofKey? fields k with
      | none => False
      | some .any => True
      | some (.fields sub) => FitsSection sub v) ↔ ∃ s, ofKey? fields k = some s ∧ s.Accepts v := by
  match h : ofKey? fields k with
  | none => simp
  | some .any => simp
  | some (.fields sub) => simp [Accepts]

/-- **Fitting by membership.** -/
theorem fits_iff : Fits fields es ↔
    Entries.Distinct es ∧ ∀ e ∈ es, ∃ s, ofKey? fields e.1 = some s ∧ s.Accepts e.2 := by
  induction es with
  | nil => simp [Fits]
  | cons e es ih =>
    rw [Fits, ofKey_match_iff, ih, Entries.distinct_cons, List.forall_mem_cons]
    exact ⟨fun ⟨hf, ⟨hd, hes⟩, he⟩ => ⟨⟨hf, hd⟩, he, hes⟩,
      fun ⟨⟨hf, hd⟩, he, hes⟩ => ⟨hf, ⟨hd, hes⟩, he⟩⟩

theorem Fits.distinct (h : Fits fields es) : Entries.Distinct es := (fits_iff.mp h).1

theorem Fits.value (h : Fits fields es) {e : Key × Value} (he : e ∈ es) :
    ∃ s, ofKey? fields e.1 = some s ∧ s.Accepts e.2 := (fits_iff.mp h).2 e he

@[simp] theorem fits_nil (fields : List (String × Schema)) : Fits fields [] :=
  fits_iff.mpr ⟨Entries.distinct_nil, by simp⟩

@[simp] theorem ofKey?_text (fields : List (String × Schema)) (name : String) :
    ofKey? fields (.text name) = field? fields name := rfl

/-- Every key that fits is a name. -/
theorem exists_text_of_ofKey? {k : Key} (h : ofKey? fields k = some s) :
    ∃ name, k = .text name ∧ field? fields name = some s := by
  cases k with
  | text name => exact ⟨name, rfl, h⟩
  | _ => cases h

/-- What stands under a name is accepted by the field of the name. -/
theorem Fits.named? {name : String} (h : Fits fields es) (hv : Entries.named? name es = some v) :
    ∃ s, field? fields name = some s ∧ s.Accepts v := h.value (Entries.mem_of_named? hv)

/-! ### Pruning -/

/-- What pruning keeps of a value for which there is a schema or none. -/
def kept? : Option Schema → Value → Option Value
  | none, _ => none
  | some .any, v => some v
  | some (.fields sub), v =>
    match prune sub v with
    | [] => none
    | kept => some (.map kept)

theorem pruneEntries_cons (fields : List (String × Schema)) (k : Key) (v : Value)
    (rest : Entries) : pruneEntries fields ((k, v) :: rest) =
      match kept? (ofKey? fields k) v with
      | none => pruneEntries fields rest
      | some w => (k, w) :: pruneEntries fields rest := by
  rw [pruneEntries]
  match ofKey? fields k with
  | none => rfl
  | some .any => rfl
  | some (.fields sub) =>
    simp only [kept?]
    cases prune sub v <;> rfl

theorem prune_of_not_map (h : v.isMap = false) (fields : List (String × Schema)) :
    prune fields v = [] := by
  cases v with
  | map es mark => cases h
  | _ => rfl

@[simp] theorem prune_map (fields : List (String × Schema)) (es : Entries) (mark : Option Mark) :
    prune fields (.map es mark) = pruneEntries fields es := by rw [prune]

/-- What is kept is a whole leaf, or what is left of a section that does not become empty. -/
theorem cases_of_kept? {o : Option Schema} {w : Value} (h : kept? o v = some w) :
    (o = some .any ∧ w = v) ∨ ∃ sub inner mark, o = some (.fields sub) ∧ v = .map inner mark ∧
      pruneEntries sub inner ≠ [] ∧ w = .map (pruneEntries sub inner) := by
  match o with
  | none => cases h
  | some .any => exact .inl ⟨rfl, (Option.some.inj h).symm⟩
  | some (.fields sub) =>
    cases v with
    | map inner mark =>
      rw [kept?, prune_map] at h
      refine .inr ⟨sub, inner, mark, rfl, rfl, ?_⟩
      cases hkept : pruneEntries sub inner with
      | nil => rw [hkept] at h; cases h
      | cons e kept =>
        rw [hkept] at h
        exact ⟨List.cons_ne_nil e kept, (Option.some.inj h).symm⟩
    | _ => rw [kept?, prune_of_not_map rfl] at h; cases h

/-- **What fits is not changed by pruning.** -/
theorem pruneEntries_of_fits (fields : List (String × Schema)) (es : Entries)
    (h : Fits fields es) : pruneEntries fields es = es := by
  match es with
  | [] => rw [pruneEntries]
  | (k, v) :: rest =>
    rw [Fits, ofKey_match_iff] at h
    obtain ⟨-, hrest, s, hk, hv⟩ := h
    rw [pruneEntries_cons, pruneEntries_of_fits fields rest hrest, hk]
    cases s with
    | any => rfl
    | fields sub =>
      obtain ⟨inner, rfl, hne, hinner⟩ := accepts_fields.mp hv
      rw [kept?, prune_map, pruneEntries_of_fits sub inner hinner]
      cases inner with
      | nil => exact absurd rfl hne
      | cons e inner => rfl
termination_by sizeOf es

/-- There is nothing to keep a value for where there is no schema. -/
theorem exists_of_kept? {o : Option Schema} {w : Value} (h : kept? o v = some w) :
    ∃ s, o = some s := by
  cases o with
  | none => cases h
  | some s => exact ⟨s, rfl⟩

/-- Every entry that is left has been kept of an entry with the same key. -/
theorem mem_pruneEntries (fields : List (String × Schema)) (es : Entries) :
    ∀ e ∈ pruneEntries fields es, ∃ v, (e.1, v) ∈ es ∧ kept? (ofKey? fields e.1) v = some e.2 := by
  induction es with
  | nil => simp [pruneEntries]
  | cons f es ih =>
    obtain ⟨k, v⟩ := f
    have htail : ∀ e ∈ pruneEntries fields es,
        ∃ u, (e.1, u) ∈ (k, v) :: es ∧ kept? (ofKey? fields e.1) u = some e.2 := by
      intro e he
      obtain ⟨u, hu, hkept⟩ := ih e he
      exact ⟨u, List.mem_cons_of_mem _ hu, hkept⟩
    rw [pruneEntries_cons]
    cases hw : kept? (ofKey? fields k) v with
    | none => exact htail
    | some w => exact List.forall_mem_cons.mpr ⟨⟨v, List.mem_cons_self, hw⟩, htail⟩

/-- **What is left by pruning a tree fits.** -/
theorem fits_pruneEntries (fields : List (String × Schema)) (es : Entries)
    (h : Entries.AreTrees es) : Fits fields (pruneEntries fields es) := by
  match es with
  | [] => rw [pruneEntries]; exact fits_nil fields
  | (k, v) :: rest =>
    have hrest := fits_pruneEntries fields rest h.of_cons
    rw [pruneEntries_cons]
    match hw : kept? (ofKey? fields k) v with
    | none => exact hrest
    | some w =>
      rw [Fits, ofKey_match_iff]
      refine ⟨fun e he => ?_, hrest, ?_⟩
      · obtain ⟨u, hu, -⟩ := mem_pruneEntries fields rest e he
        exact (Entries.distinct_cons.mp h.distinct).1 (e.1, u) hu
      · have hv := h.value _ List.mem_cons_self
        obtain ⟨hk, -⟩ | ⟨sub, inner, mark, hk, rfl, hne, rfl⟩ := cases_of_kept? hw
        · exact ⟨.any, hk, accepts_any w⟩
        · have hinner := fits_pruneEntries sub inner (Value.isTree_map.mp hv).2
          exact ⟨.fields sub, hk, accepts_fields.mpr ⟨_, rfl, hne, hinner⟩⟩
termination_by sizeOf es

/-- Pruning brings nothing into a tree. -/
theorem haveContent_pruneEntries {c : Content} (fields : List (String × Schema)) (es : Entries)
    (h : Entries.HaveContent c es) : Entries.HaveContent c (pruneEntries fields es) := by
  have hdistinct := (fits_pruneEntries fields es h.areTrees).distinct
  match es with
  | [] =>
    rw [pruneEntries]
    exact Entries.haveContent_nil
  | (k, v) :: rest =>
    have hrest := haveContent_pruneEntries fields rest h.of_cons
    rw [pruneEntries_cons] at hdistinct ⊢
    match hw : kept? (ofKey? fields k) v with
    | none => exact hrest
    | some w =>
      rw [hw] at hdistinct
      have hk := h.key _ List.mem_cons_self
      have hv := h.value _ List.mem_cons_self
      refine ⟨hdistinct, List.forall_mem_cons.mpr ⟨hk, hrest.key⟩,
        List.forall_mem_cons.mpr ⟨?_, hrest.value⟩⟩
      obtain ⟨-, rfl⟩ | ⟨sub, inner, mark, -, rfl, -, rfl⟩ := cases_of_kept? hw
      · exact hv
      · have hinner := haveContent_pruneEntries sub inner (Value.hasContent_map.mp hv).2
        exact Value.hasContent_map.mpr ⟨rfl, hinner⟩
termination_by sizeOf es

theorem get?_pruneEntries (hd : Entries.Distinct es) (fields : List (String × Schema)) (k : Key)
    (name : String) (hk : k = .text name) : Entries.get? k (pruneEntries fields es) =
      (Entries.get? k es).bind (kept? (field? fields name)) := by
  induction es with
  | nil => rw [pruneEntries]; rfl
  | cons e es ih =>
    obtain ⟨key, v⟩ := e
    obtain ⟨hne, hrest⟩ := Entries.distinct_cons.mp hd
    specialize ih hrest
    rw [pruneEntries_cons, Entries.get?_cons]
    by_cases h : k.agrees key = true
    · rw [if_pos h]
      subst hk
      cases Key.text_agrees_iff.mp h
      have hnone : Entries.get? (.text name) es = none := Entries.get?_eq_none_iff.mpr hne
      rw [ofKey?_text, Option.bind_some]
      cases kept? (field? fields name) v with
      | none => rw [ih, hnone]; rfl
      | some w => rw [Entries.get?_cons, if_pos h]
    · rw [if_neg h]
      cases kept? (ofKey? fields key) v with
      | none => exact ih
      | some w => rw [Entries.get?_cons, if_neg h]; exact ih

/-- What pruning leaves under a name. -/
theorem named?_pruneEntries (hd : Entries.Distinct es) (fields : List (String × Schema))
    (name : String) : Entries.named? name (pruneEntries fields es) =
      (Entries.named? name es).bind (kept? (field? fields name)) :=
  get?_pruneEntries hd fields (.text name) name rfl

/-! ### Changes that keep entries fitting -/

theorem Fits.insert {key : Key} (h : Fits fields es) (hk : ofKey? fields key = some s)
    (hv : s.Accepts v) : Fits fields (Entries.insert key v es) := by
  refine fits_iff.mpr ⟨h.distinct.insert key v, fun e he => ?_⟩
  rcases Entries.mem_insert he with ⟨hagrees, rfl⟩ | he
  · obtain ⟨name, rfl, -⟩ := exists_text_of_ofKey? hk
    rw [Key.text_agrees_iff.mp hagrees]
    exact ⟨s, hk, hv⟩
  · exact h.value he

/-- A schema that accepts a value accepts what a change makes of it, if it does so for mappings. -/
theorem accepts_onMap {f : Entries → Entries} (hv : s.Accepts v)
    (hf : ∀ inner, s.Accepts (.map inner) → s.Accepts (.map (f inner))) :
    s.Accepts (v.onMap f) := by
  cases s with
  | any => trivial
  | fields sub =>
    obtain ⟨inner, rfl, -, -⟩ := accepts_fields.mp hv
    exact hf inner hv

theorem Fits.erase (h : Fits fields es) (key : Key) : Fits fields (Entries.erase key es) :=
  fits_iff.mpr ⟨h.distinct.erase key,
    fun _ he => h.value ((Entries.erase_sublist key es).subset he)⟩

theorem Fits.modifyMap {name : String} {f : Entries → Entries} (h : Fits fields es)
    (hf : ∀ s inner, field? fields name = some s → s.Accepts (.map inner) →
      s.Accepts (.map (f inner))) : Fits fields (Entries.modifyMap name f es) := by
  refine fits_iff.mpr ⟨h.distinct.modifyMap name f, ?_⟩
  have hvalue := (fits_iff.mp h).2
  clear h
  induction es with
  | nil => simp [Entries.modifyMap]
  | cons e es ih =>
    obtain ⟨he, hes⟩ := List.forall_mem_cons.mp hvalue
    rw [Entries.modifyMap]
    split
    next hk =>
      refine List.forall_mem_cons.mpr ⟨?_, hes⟩
      obtain ⟨s, hs, hsv⟩ := he
      refine ⟨s, hs, ?_⟩
      rw [Key.text_agrees_iff.mp hk, ofKey?_text] at hs
      exact accepts_onMap hsv fun inner => hf s inner hs
    next => exact List.forall_mem_cons.mpr ⟨he, ih hes⟩

theorem Fits.mapEach {f : Entries → Entries} (h : Fits fields es)
    (hf : ∀ s inner, (∃ name, field? fields name = some s) → s.Accepts (.map inner) →
      s.Accepts (.map (f inner))) : Fits fields (Entries.mapEach f es) := by
  refine fits_iff.mpr ⟨h.distinct.mapEach f, fun e he => ?_⟩
  obtain ⟨e', he', rfl⟩ := List.mem_map.mp he
  obtain ⟨s, hs, hsv⟩ := h.value he'
  obtain ⟨name, -, hname⟩ := exists_text_of_ofKey? hs
  exact ⟨s, hs, accepts_onMap hsv fun inner => hf s inner ⟨name, hname⟩⟩

/-- Entries that fit, overlaid with entries that fit, fit. -/
theorem Fits.overlay {fields : List (String × Schema)} {base : Entries}
    (hb : Fits fields base) (new : Entries) (hn : Fits fields new) :
    Fits fields (ThemeSheet.overlay base new) := by
  match new with
  | [] => rwa [overlay_nil]
  | (k, v) :: rest =>
    rw [Fits, ofKey_match_iff] at hn
    obtain ⟨-, hrest, s, hk, hv⟩ := hn
    rw [overlay_cons]
    refine Fits.overlay (hb.insert hk ?_) rest hrest
    cases s with
    | any => trivial
    | fields sub =>
      obtain ⟨inner, rfl, hne, hinner⟩ := accepts_fields.mp hv
      cases hold : Entries.get? k base with
      | none => rw [Value.overlayValue_none]; exact hv
      | some old =>
        obtain ⟨name, rfl, hname⟩ := exists_text_of_ofKey? hk
        obtain ⟨s, hs, hold⟩ := hb.named? hold
        rw [hname] at hs
        cases hs
        obtain ⟨under, rfl, hne', hunder⟩ := accepts_fields.mp hold
        rw [Value.overlayValue_map_map]
        exact accepts_fields.mpr
          ⟨_, rfl, overlay_ne_nil_of_base hne' inner, Fits.overlay hunder inner hinner⟩
termination_by sizeOf new

/-! ### Paths through a schema -/

/-- The schema of what stands at a path. Below a leaf anything may stand. -/
def part? : Path → Schema → Option Schema
  | [], s => some s
  | _ :: _, .any => some .any
  | name :: rest, .fields fields => (field? fields name).bind (part? rest)

/-- Whether a path does not go on below a leaf. -/
def staysInside : Path → Schema → Bool
  | [], _ => true
  | _ :: _, .any => false
  | name :: rest, .fields fields => (field? fields name).all (staysInside rest)

@[simp] theorem part?_nil (s : Schema) : part? [] s = some s := by rw [part?]

@[simp] theorem part?_any (p : Path) : part? p .any = some .any := by cases p <;> rfl

@[simp] theorem part?_cons_fields (name : String) (rest : Path)
    (fields : List (String × Schema)) :
    part? (name :: rest) (.fields fields) = (field? fields name).bind (part? rest) := rfl

theorem part?_append (p q : Path) (s : Schema) :
    part? (p ++ q) s = (part? p s).bind (part? q) := by
  induction p generalizing s with
  | nil => simp
  | cons name rest ih =>
    cases s with
    | any => simp
    | fields fields =>
      rw [List.cons_append, part?_cons_fields, part?_cons_fields, Option.bind_assoc]
      congr 1
      funext t
      exact ih t

/-- **Writing what the schema has at a path.** -/
theorem Fits.setEntries {p : Path} (h : Fits fields es) (hs : part? p (.fields fields) = some s)
    (hv : s.Accepts v) : Fits fields (Value.setEntries p v es) := by
  induction p generalizing fields es with
  | nil => exact h
  | cons name rest ih =>
    rw [part?_cons_fields, Option.bind_eq_some_iff] at hs
    obtain ⟨t, ht, hs⟩ := hs
    cases rest with
    | nil =>
      cases hs
      exact h.insert ht hv
    | cons other rest =>
      rw [Value.setEntries_cons_cons]
      refine h.insert ht ?_
      cases t with
      | any => trivial
      | fields sub =>
        have written : ∀ inner, Fits sub inner →
            Accepts (.fields sub) (.map (Value.setEntries (other :: rest) v inner)) :=
          fun inner hinner => accepts_fields.mpr
            ⟨_, rfl, Value.setEntries_ne_nil (by simp) v inner, ih hinner hs⟩
        cases hold : Entries.named? name es with
        | none => exact written [] (fits_nil sub)
        | some old =>
          obtain ⟨s', hs', hold⟩ := h.named? hold
          rw [ht] at hs'
          cases hs'
          obtain ⟨inner, rfl, -, hinner⟩ := accepts_fields.mp hold
          exact written inner hinner

/-- What stands at a path is accepted by what the schema has there. -/
theorem Fits.walk? {p : Path} (h : Fits fields es) (hv : Value.walk? p (.map es) = some v) :
    ∃ s, part? p (.fields fields) = some s ∧ (p ≠ [] → s.Accepts v) := by
  induction p generalizing fields es with
  | nil => exact ⟨_, rfl, by simp⟩
  | cons name rest ih =>
    rw [Value.walk?_cons_map, Option.bind_eq_some_iff] at hv
    obtain ⟨w, hw, hv⟩ := hv
    obtain ⟨t, ht, hwt⟩ := h.named? hw
    rw [part?_cons_fields, ht, Option.bind_some]
    cases t with
    | any => exact ⟨.any, part?_any rest, fun _ => trivial⟩
    | fields sub =>
      obtain ⟨inner, rfl, hne, hinner⟩ := accepts_fields.mp hwt
      cases rest with
      | nil => cases hv; exact ⟨_, rfl, fun _ => hwt⟩
      | cons other rest =>
        obtain ⟨s, hs, hsv⟩ := ih hinner hv
        exact ⟨s, hs, fun _ => hsv (by simp)⟩

/-- **A way that stays inside the schema leads through mappings only.** -/
theorem Fits.open {p : Path} (h : Fits fields es) (hp : staysInside p (.fields fields) = true) :
    Value.Open p (.map es) := by
  induction p generalizing fields es with
  | nil => trivial
  | cons name rest ih =>
    refine Value.open_cons_map.mpr ⟨h.distinct, fun w hw => ?_⟩
    obtain ⟨t, ht, hwt⟩ := h.named? hw
    rw [staysInside, ht, Option.all_some] at hp
    cases rest with
    | nil => trivial
    | cons other rest =>
      cases t with
      | any => cases hp
      | fields sub =>
        obtain ⟨inner, rfl, -, hinner⟩ := accepts_fields.mp hwt
        exact ih hinner hp

/-- **What pruning leaves at a path** that does not go on below a leaf: what is kept, by the schema
of that path, of what stood there. -/
theorem walk?_pruneEntries_eq_bind {p : Path} {mark : Option Mark}
    (h : (Value.map es mark).HasDistinctKeys) (hne : p ≠ [])
    (hp : staysInside p (.fields fields) = true) (hs : part? p (.fields fields) = some s) :
    Value.walk? p (.map (pruneEntries fields es)) =
      (Value.walk? p (.map es mark)).bind (kept? (some s)) := by
  induction p generalizing fields es mark with
  | nil => exact absurd rfl hne
  | cons name rest ih =>
    rw [part?_cons_fields, Option.bind_eq_some_iff] at hs
    obtain ⟨t, ht, hs⟩ := hs
    rw [staysInside, ht, Option.all_some] at hp
    rw [Value.walk?_cons_map, Value.walk?_cons_map,
      named?_pruneEntries (Value.hasDistinctKeys_map.mp h).1, ht, Option.bind_assoc]
    cases hv : Entries.named? name es with
    | none => rfl
    | some w =>
      rw [Option.bind_some, Option.bind_some]
      cases rest with
      | nil =>
        cases hs
        rw [Value.walk?_nil, Option.bind_some]
        cases kept? (some s) w <;> rfl
      | cons other rest =>
        cases t with
        | any => cases hp
        | fields sub =>
          cases w with
          | map inner mark =>
            have hinner := ih (h.named? hv) (by simp) hp hs
            rw [kept?, prune_map]
            cases hkept : pruneEntries sub inner with
            | nil => rw [hkept] at hinner; exact hinner
            | cons e kept => rw [hkept] at hinner; exact hinner
          | _ => rw [kept?, prune_of_not_map rfl]; rfl

/-- **Pruning leaves alone what stands at a leaf.** -/
theorem walk?_pruneEntries {p : Path} (h : Entries.AreTrees es)
    (hp : staysInside p (.fields fields) = true) (hs : part? p (.fields fields) = some .any) :
    Value.walk? p (.map (pruneEntries fields es)) = Value.walk? p (.map es) := by
  have hne : p ≠ [] := by
    rintro rfl
    cases hs
  rw [walk?_pruneEntries_eq_bind (Value.isTree_map.mpr ⟨rfl, h⟩).hasDistinctKeys hne hp hs]
  cases Value.walk? p (.map es) <;> rfl

/-- What is no mapping after pruning was there before. -/
theorem walk?_of_pruneEntries {q : Path} (h : Entries.AreTrees es)
    (hv : Value.walk? q (.map (pruneEntries fields es)) = some v) (hmap : v.isMap = false) :
    Value.walk? q (.map es) = some v := by
  induction q generalizing fields es with
  | nil =>
    cases hv
    cases hmap
  | cons name rest ih =>
    rw [Value.walk?_cons_map, named?_pruneEntries h.distinct, Option.bind_eq_some_iff] at hv
    obtain ⟨w, hw, hv⟩ := hv
    obtain ⟨u, hu, hkept⟩ := Option.bind_eq_some_iff.mp hw
    rw [Value.walk?_cons_map, hu, Option.bind_some]
    obtain ⟨-, rfl⟩ | ⟨sub, inner, mark, -, rfl, -, rfl⟩ := cases_of_kept? hkept
    · exact hv
    · obtain ⟨rfl, hinner⟩ := Value.isTree_map.mp (h.named? hu)
      exact ih hinner hv

end Schema

end ThemeSheet
