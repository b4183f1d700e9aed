import ThemeSheet.Preset.Stylesheet
import ThemeSheet.Proofs.Preset.Ordered
import ThemeSheet.Proofs.Results
import ThemeSheet.Proofs.Slug.Hyphens
import ThemeSheet.Proofs.Tree.Decidable

/-!
# The leaves of a flattened tree

A tree is flattened mapping by mapping, each on its own, and what comes of a mapping is written into
what comes of the one around it. The outcome is that of writing the leaves one by one, in the order
in which they stand in the tree, each under the name of the way to it. Names that are made with two
hyphens tell the ways apart, so that a leaf never takes the place of one at another depth, or under
keys with other slugs.

## Main definitions

* `Value.leaves`, the leaves of a value with the ways to them;
* `nameLeaf`, a leaf under the name of the way to it;
* `Value.Flattens`, of values whose leaves can be named.

## Main results

* `flattenEntries_eq_ok_iff`, `flattenValue_eq_ok_iff`: what flattening writes;
* `exists_flatten_map_iff`: when there is an outcome;
* `nodup_names_flatten`: no name stands twice;
* `nameLeaf_inj`: ways of one name;
* `flatten_faithful`: the outcome as a whole.
-/

namespace ThemeSheet

variable {k : Key} {v : Value} {es : List (Key × Value)} {keys : List Key}
  {start slug token : String} {result : List (String × Value)}

/-! ### Leaves -/

mutual

/-- The leaves of a value, depth first, each with the keys on the way to it. Whatever is no mapping
is a leaf. -/
def Value.leaves : Value → List (List Key × Value)
  | .map es _ => Entries.leaves es
  | v => [([], v)]

/-- The leaves of the values of entries. -/
def Entries.leaves : List (Key × Value) → List (List Key × Value)
  | [] => []
  | (k, v) :: rest => v.leaves.map (fun leaf => (k :: leaf.1, leaf.2)) ++ Entries.leaves rest

end

mutual

/-- Every key in a value has a slug, and no mapping stands inside itself. The marks are those of the
mappings around the value. -/
def Value.Flattens (around : List Mark) : Value → Prop
  | .map es mark =>
    Mark.recurs mark around = false ∧ Entries.Flattens (Mark.within mark around) es
  | _ => True

/-- Every key in some entries has a slug, and no mapping stands inside itself. -/
def Entries.Flattens (around : List Mark) : List (Key × Value) → Prop
  | [] => True
  | (k, v) :: rest =>
    (∃ slug, Slug.ofKey k = .ok slug) ∧ v.Flattens around ∧ Entries.Flattens around rest

end

/-! ### Names of leaves -/

/-- A leaf under the name of the way to it: a beginning, and the slugs of the keys with the token
between them. -/
def nameLeaf (start token : String) (leaf : List Key × Value) :
    Except Refusal (String × Value) := do
  let slugs ← leaf.1.mapM Slug.ofKey
  return (start ++ token.intercalate slugs, leaf.2)

/-- A leaf in a value that has a name itself. -/
def nameBelow (name token : String) (leaf : List Key × Value) :
    Except Refusal (String × Value) := do
  let slugs ← leaf.1.mapM Slug.ofKey
  return (token.intercalate (name :: slugs), leaf.2)

theorem nameLeaf_cons (h : Slug.ofKey k = .ok slug) (start token : String)
    (leaf : List Key × Value) :
    nameLeaf start token (k :: leaf.1, leaf.2) = nameBelow (start ++ slug) token leaf := by
  rw [nameLeaf, nameBelow, List.mapM_cons, h]
  cases leaf.1.mapM Slug.ofKey with
  | error e => rfl
  | ok slugs =>
    show Except.ok (start ++ token.intercalate (slug :: slugs), leaf.2) = Except.ok _
    rw [String.intercalate_cons_append]

theorem nameBelow_of_ne_nil {leaf : List Key × Value} (h : leaf.1 ≠ []) (name token : String) :
    nameBelow name token leaf = nameLeaf (name ++ token) token leaf := by
  obtain ⟨keys, v⟩ := leaf
  obtain ⟨k, keys, rfl⟩ := List.exists_cons_of_ne_nil h
  rw [nameLeaf, nameBelow, List.mapM_cons]
  cases Slug.ofKey k with
  | error e => rfl
  | ok slug =>
    cases keys.mapM Slug.ofKey with
    | error e => rfl
    | ok slugs =>
      show Except.ok (token.intercalate (name :: slug :: slugs), v) = Except.ok _
      rw [String.intercalate_cons_cons]

/-- Every leaf of a mapping stands under a key. -/
theorem ne_nil_of_mem_leaves {leaf : List Key × Value} (h : leaf ∈ Entries.leaves es) :
    leaf.1 ≠ [] := by
  induction es with
  | nil => cases h
  | cons e es ih =>
    rw [Entries.leaves] at h
    rcases List.mem_append.mp h with h | h
    · obtain ⟨below, -, rfl⟩ := List.mem_map.mp h
      exact List.cons_ne_nil _ _
    · exact ih h

mutual

/-- The keys on the way to a leaf are keys of the value. -/
theorem Value.Flattens.exists_ofKey {around : List Mark} {v : Value} (h : v.Flattens around)
    {leaf : List Key × Value} (hleaf : leaf ∈ v.leaves) :
    ∀ k ∈ leaf.1, ∃ slug, Slug.ofKey k = .ok slug := by
  match v with
  | .map es mark =>
    rw [Value.leaves] at hleaf
    rw [Value.Flattens] at h
    exact h.2.exists_ofKey hleaf
  | .list _ _ | .null | .bool _ | .int _ | .float _ | .moment _ | .text _ =>
    rw [Value.leaves] at hleaf
    · cases List.mem_singleton.mp hleaf
      exact List.forall_mem_nil _
    · nofun

theorem Entries.Flattens.exists_ofKey {around : List Mark} {es : List (Key × Value)}
    (h : Entries.Flattens around es) {leaf : List Key × Value} (hleaf : leaf ∈ Entries.leaves es) :
    ∀ k ∈ leaf.1, ∃ slug, Slug.ofKey k = .ok slug := by
  match es with
  | [] => cases hleaf
  | (k, v) :: es =>
    rw [Entries.Flattens] at h
    rw [Entries.leaves] at hleaf
    obtain ⟨hk, hv, hes⟩ := h
    rcases List.mem_append.mp hleaf with hleaf | hleaf
    · obtain ⟨below, hbelow, rfl⟩ := List.mem_map.mp hleaf
      exact List.forall_mem_cons.mpr ⟨hk, hv.exists_ofKey hbelow⟩
    · exact hes.exists_ofKey hleaf

end

/-- Where keys have slugs, all leaves can be named. -/
theorem Value.Flattens.exists_named {around : List Mark} (h : v.Flattens around)
    (start token : String) : ∃ named, v.leaves.mapM (nameLeaf start token) = .ok named := by
  refine Result.exists_mapM fun leaf hleaf => ?_
  obtain ⟨slugs, hslugs⟩ := Result.exists_mapM (h.exists_ofKey hleaf)
  exact ⟨(start ++ token.intercalate slugs, leaf.2), by rw [nameLeaf, hslugs]; rfl⟩

/-- The leaves of a mapping in a value that has a name. -/
theorem mapM_nameBelow_leaves (name token : String) (es : List (Key × Value)) :
    (Entries.leaves es).mapM (nameBelow name token) =
      (Entries.leaves es).mapM (nameLeaf (name ++ token) token) :=
  Result.mapM_congr fun _ h => nameBelow_of_ne_nil (ne_nil_of_mem_leaves h) name token

/-- A leaf in a value that is a leaf is that value, and has its name. -/
theorem mapM_nameBelow_leaf (name token : String) (v : Value) :
    [([], v)].mapM (nameBelow name token) = .ok [(name, v)] := by
  show Except.ok [(token.intercalate [name], v)] = _
  rw [String.intercalate_singleton]

/-- The leaves under one more key. -/
theorem mapM_nameLeaf_cons (h : Slug.ofKey k = .ok slug) (start token : String)
    (leaves : List (List Key × Value)) :
    (leaves.map fun leaf => (k :: leaf.1, leaf.2)).mapM (nameLeaf start token) =
      leaves.mapM (nameBelow (start ++ slug) token) := by
  rw [List.mapM_map]
  exact Result.mapM_congr fun leaf _ => nameLeaf_cons h start token leaf

/-! ### What is written -/

mutual

/-- **What the entries of a mapping write** are its leaves, in their order. -/
theorem flattenEntries_eq_ok_iff (start token : String) (around : List Mark)
    (done result : List (String × Value)) (es : List (Key × Value)) :
    flattenEntries start token around done es = .ok result ↔ Entries.Flattens around es ∧
      ∃ named, (Entries.leaves es).mapM (nameLeaf start token) = .ok named ∧
        result = Named.putAll done named := by
  match es with
  | [] =>
    rw [flattenEntries, Entries.Flattens, Entries.leaves, true_and]
    constructor
    · intro h
      exact ⟨[], rfl, (Except.ok.inj h).symm⟩
    · rintro ⟨named, hnamed, rfl⟩
      cases hnamed
      rfl
  | (k, v) :: es =>
    rw [Entries.Flattens, Entries.leaves]
    simp only [flattenEntries, Result.bind_eq_ok_iff, Result.mapM_append_eq_ok_iff]
    constructor
    · rintro ⟨slug, hslug, mid, hmid, hrest⟩
      obtain ⟨hv, named, hnamed, rfl⟩ := (flattenValue_eq_ok_iff ..).mp hmid
      obtain ⟨hes, more, hmore, rfl⟩ := (flattenEntries_eq_ok_iff ..).mp hrest
      rw [← mapM_nameLeaf_cons hslug] at hnamed
      exact ⟨⟨⟨slug, hslug⟩, hv, hes⟩, named ++ more, ⟨named, hnamed, more, hmore, rfl⟩,
        (Named.putAll_append done named more).symm⟩
    · rintro ⟨⟨⟨slug, hslug⟩, hv, hes⟩, -, ⟨named, hnamed, more, hmore, rfl⟩, rfl⟩
      rw [mapM_nameLeaf_cons hslug] at hnamed
      exact ⟨slug, hslug, _, (flattenValue_eq_ok_iff ..).mpr ⟨hv, named, hnamed, rfl⟩,
        (flattenEntries_eq_ok_iff ..).mpr ⟨hes, more, hmore, Named.putAll_append done named more⟩⟩

/-- **What a value writes** are its leaves, under names that begin with its own. -/
theorem flattenValue_eq_ok_iff (name token : String) (around : List Mark)
    (done result : List (String × Value)) (v : Value) :
    flattenValue name token around done v = .ok result ↔ v.Flattens around ∧
      ∃ named, v.leaves.mapM (nameBelow name token) = .ok named ∧
        result = Named.putAll done named := by
  match v with
  | .map es mark =>
    rw [flattenValue, Value.Flattens, Value.leaves, mapM_nameBelow_leaves]
    split
    next hrecurs => simp [hrecurs]
    next hrecurs =>
      rw [Bool.not_eq_true] at hrecurs
      simp only [Result.bind_eq_ok_iff]
      constructor
      · rintro ⟨inner, h, hresult⟩
        obtain ⟨hes, named, hnamed, rfl⟩ := (flattenEntries_eq_ok_iff ..).mp h
        cases hresult
        exact ⟨⟨hrecurs, hes⟩, named, hnamed, Named.putAll_outcome done named⟩
      · rintro ⟨⟨-, hes⟩, named, hnamed, rfl⟩
        exact ⟨_, (flattenEntries_eq_ok_iff ..).mpr ⟨hes, named, hnamed, rfl⟩,
          congrArg Except.ok (Named.putAll_outcome done named)⟩
  | .list _ _ | .null | .bool _ | .int _ | .float _ | .moment _ | .text _ =>
    rw [flattenValue, Value.Flattens, Value.leaves, true_and, mapM_nameBelow_leaf]
    · constructor
      · intro h
        exact ⟨_, rfl, (Except.ok.inj h).symm⟩
      · rintro ⟨named, hnamed, rfl⟩
        cases hnamed
        rfl
    all_goals nofun

end

theorem flatten_map_eq_ok_iff (start token : String) (es : List (Key × Value))
    (mark : Option Mark) (result : List (String × Value)) :
    flatten start token (.map es mark) = .ok result ↔ (Value.map es mark).Flattens [] ∧
      ∃ named, (Value.map es mark).leaves.mapM (nameLeaf start token) = .ok named ∧
        Named.IsOutcome named result := by
  have hrecurs : Mark.recurs mark [] = false := by cases mark <;> rfl
  rw [flatten, flattenEntries_eq_ok_iff, Value.Flattens, Value.leaves]
  simp only [hrecurs, true_and, Named.isOutcome_iff]

/-- **A mapping can be flattened** if its keys have slugs and it does not hold itself. -/
theorem exists_flatten_map_iff (start token : String) (es : List (Key × Value))
    (mark : Option Mark) : (∃ flat, flatten start token (.map es mark) = .ok flat) ↔
      (Value.map es mark).Flattens [] := by
  simp only [flatten_map_eq_ok_iff]
  constructor
  · rintro ⟨flat, h, -⟩
    exact h
  · intro h
    obtain ⟨named, hnamed⟩ := h.exists_named start token
    exact ⟨_, h, named, hnamed, Named.isOutcome_iff.mpr rfl⟩

/-- No name stands twice in a flattened tree. -/
theorem nodup_names_flatten {tree : Value} (h : flatten start token tree = .ok result) :
    (result.map (·.1)).Nodup := by
  cases tree with
  | map es mark =>
    obtain ⟨-, named, -, houtcome⟩ := (flatten_map_eq_ok_iff start token es mark result).mp h
    exact houtcome.order.nodup
  | _ =>
    cases h
    exact .nil

/-! ### Ways of one name -/

theorem ne_nil_of_mapM_ofKey {slugs : List String} (h : keys.mapM Slug.ofKey = .ok slugs)
    (hne : keys ≠ []) : slugs ≠ [] := by
  rintro rfl
  exact hne (List.map_eq_nil_iff.mp (Result.mapM_eq_ok_iff_map.mp h))

theorem hyphensApart_of_mapM_ofKey {slugs : List String} (h : keys.mapM Slug.ofKey = .ok slugs) :
    ∀ slug ∈ slugs, Slug.HyphensApart slug.toList := by
  intro slug hslug
  obtain ⟨k, -, hk⟩ := Result.exists_of_mem_mapM h hslug
  exact Slug.hyphensApart_ofKey hk

/-- **Two ways have one name** if they are made of as many keys, and the keys have the same slugs
one by one. -/
theorem nameLeaf_inj {leaf other : List Key × Value} {named named' : String × Value}
    (hne : leaf.1 ≠ []) (hne' : other.1 ≠ []) (h : nameLeaf start "--" leaf = .ok named)
    (h' : nameLeaf start "--" other = .ok named') :
    named.1 = named'.1 ↔ leaf.1.map Slug.ofKey = other.1.map Slug.ofKey := by
  obtain ⟨slugs, hslugs, h⟩ := Result.exists_of_bind h
  obtain ⟨slugs', hslugs', h'⟩ := Result.exists_of_bind h'
  cases h
  cases h'
  have hmap : leaf.1.map Slug.ofKey = other.1.map Slug.ofKey ↔ slugs = slugs' := by
    rw [Result.mapM_eq_ok_iff_map.mp hslugs, Result.mapM_eq_ok_iff_map.mp hslugs',
      List.map_inj_right fun _ _ => Except.ok.inj]
  rw [hmap]
  constructor
  · intro heq
    exact Slug.intercalate_inj (ne_nil_of_mapM_ofKey hslugs hne)
      (ne_nil_of_mapM_ofKey hslugs' hne') (hyphensApart_of_mapM_ofKey hslugs)
      (hyphensApart_of_mapM_ofKey hslugs') (String.append_right_inj start |>.mp heq)
  · rintro rfl
    rfl

/-- **The leaves of a flattened tree** are written one by one, each under the name of the way to it;
this can be done if all keys have slugs and no mapping holds itself. With two hyphens between the
slugs, two leaves have one name only if the ways to them are made of as many keys, with the same
slugs one by one. -/
theorem flatten_faithful (start token : String) (es : List (Key × Value)) (mark : Option Mark) :
    let tree := Value.map es mark
    ((∃ flat, flatten start token tree = .ok flat) ↔ tree.Flattens []) ∧
      (∀ flat, flatten start token tree = .ok flat ↔ tree.Flattens [] ∧
        ∃ named, tree.leaves.mapM (nameLeaf start token) = .ok named ∧
          Named.IsOutcome named flat) ∧
      ∀ leaf ∈ tree.leaves, ∀ other ∈ tree.leaves, ∀ named named',
        nameLeaf start "--" leaf = .ok named → nameLeaf start "--" other = .ok named' →
          (named.1 = named'.1 ↔ leaf.1.map Slug.ofKey = other.1.map Slug.ofKey) := by
  intro tree
  refine ⟨exists_flatten_map_iff start token es mark, flatten_map_eq_ok_iff start token es mark,
    fun leaf hleaf other hother named named' => ?_⟩
  rw [Value.leaves] at hleaf hother
  exact nameLeaf_inj (ne_nil_of_mem_leaves hleaf) (ne_nil_of_mem_leaves hother)

/-- The two dark reds among the colors have one name, and the second is kept in the place of the
first. The red among the dark ones has a name of its own, and an empty mapping has no leaves. -/
theorem flatten_faithful_of_colors :
    let es := [
      (Key.text "colors",
        Value.map [(.text "darkRed", .text "#800"), (.text "Dark-red", .text "#810")]),
      (.text "colors/dark", .map [(.int 1, .null), (.text "red", .text "#820")]),
      (.text "none", .map [])]
    let flat := [("--colors--dark-red", Value.text "#810"), ("--colors-dark--1", .null),
      ("--colors-dark--red", .text "#820")]
    flatten "--" "--" (.map es) = .ok flat ∧
      ((Value.map es).Flattens [] ∧ ∃ named,
        (Value.map es).leaves.mapM (nameLeaf "--" "--") = .ok named ∧
          Named.IsOutcome named flat) ∧
      [Key.text "colors", .text "darkRed"].map Slug.ofKey =
        [Key.text "colors", .text "Dark-red"].map Slug.ofKey := by
  intro es flat
  obtain ⟨-, houtcome, hnames⟩ := flatten_faithful "--" "--" es none
  have hflat : flatten "--" "--" (.map es) = .ok flat := by decide +kernel
  have hleaves : (Value.map es).leaves = [
      ([.text "colors", .text "darkRed"], .text "#800"),
      ([.text "colors", .text "Dark-red"], .text "#810"),
      ([.text "colors/dark", .int 1], .null), ([.text "colors/dark", .text "red"], .text "#820")] :=
    rfl
  refine ⟨hflat, (houtcome flat).mp hflat, ?_⟩
  refine (hnames ([.text "colors", .text "darkRed"], .text "#800") (by simp [hleaves])
    ([.text "colors", .text "Dark-red"], .text "#810") (by simp [hleaves])
    ("--colors--dark-red", .text "#800") ("--colors--dark-red", .text "#810") ?_ ?_).mp rfl
  · decide +kernel
  · decide +kernel

end ThemeSheet
