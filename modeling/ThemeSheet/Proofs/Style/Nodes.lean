import Mathlib.Data.List.Nodup
import ThemeSheet.Proofs.Style.Places
import ThemeSheet.Proofs.Tree.Content

/-!
# The scopes of styles by their paths

The scopes of styles are listed while the tree is gone through, level by level. Here they are told
from the tree by reading it at paths alone: which parts of it hold styles, in which order, and what
is written under which selector. A path is listed once, and it is listed exactly if it is a place of
styles at which something stands.

## Main definitions

* `Value.namesAt`, `elementPaths`, `stylePaths`: the paths of the parts that hold styles;
* `styleSelector?`, `styleDuotone?`: the selectors of the styles at a path.

## Main results

* `styleScopes_eq_map`: the scopes of styles, read off their paths;
* `nodup_stylePaths`, `mem_stylePaths_iff`: the paths.
-/

namespace ThemeSheet

open Value (walk?)

variable {tree : Value} {place : Path} {name : String} {table : BlockTable} {es : Entries}

/-! ### Paths -/

/-- The names of the entries of the mapping at a path, in their order. -/
def Value.namesAt (tree : Value) (path : Path) : List String :=
  ((tree.at? path).map Scope.entryNames).getD []

/-- The paths of the elements of the styles at a place. -/
def elementPaths (tree : Value) (place : Path) : List Path :=
  (tree.namesAt (place ++ ["elements"])).map fun element => place ++ ["elements", element]

/-- The paths of a block and of its elements. -/
def blockPaths (tree : Value) (name : String) : List Path :=
  ["styles", "blocks", name] :: elementPaths tree ["styles", "blocks", name]

/-- The paths of the parts of a tree that hold styles, in the order of the stylesheet: the root, the
elements of the root, then every block followed by its elements. -/
def stylePaths (tree : Value) : List Path :=
  if (tree.at? ["styles"]).any Value.isMap then
    ["styles"] :: (elementPaths tree ["styles"] ++
      (tree.namesAt ["styles", "blocks"]).flatMap (blockPaths tree))
  else []

/-- The selector of the styles at a path. -/
def styleSelector? (table : BlockTable) : Path → Option String
  | ["styles"] => some rootSelector
  | ["styles", "elements", element] => elements.lookup element
  | ["styles", "blocks", name] => (table.find? name).map (·.selector)
  | ["styles", "blocks", name, "elements", element] =>
    (table.find? name).bind fun metadata => metadata.elements.lookup element
  | _ => none

/-- The part that filters apply to of what the styles at a path are written for, if one is
registered. -/
def styleDuotone? (table : BlockTable) : Path → Option String
  | ["styles", "blocks", name] => (table.find? name).bind (·.duotone)
  | _ => none

/-! ### Names at paths -/

/-- The names at a path are those of the entries that stand below it. -/
theorem mem_namesAt_iff (htree : tree.IsTree) (hplace : place ≠ []) :
    name ∈ tree.namesAt place ↔ (tree.at? (place ++ [name])).isSome = true := by
  rw [Value.namesAt, Value.at?_append hplace]
  cases hv : tree.at? place with
  | none => simp
  | some v =>
    rw [Option.map_some, Option.getD_some, Option.bind_some, Value.walk?_singleton]
    cases v with
    | map es mark =>
      have hes : (Value.map es mark).IsTree := htree.at? hv
      rw [Value.isTree_map] at hes
      exact mem_entryNames_iff hes.2.distinct
    | _ => simp [Scope.entryNames, Value.entryNamed?]

/-- No name is listed twice. -/
theorem nodup_namesAt (htree : tree.IsTree) (place : Path) : (tree.namesAt place).Nodup := by
  rw [Value.namesAt]
  cases hv : tree.at? place with
  | none => exact List.nodup_nil
  | some v =>
    cases v with
    | map es mark =>
      have hes : (Value.map es mark).IsTree := htree.at? hv
      rw [Value.isTree_map] at hes
      exact nodup_entryNames hes.2.distinct mark
    | _ => exact List.nodup_nil

/-! ### What is listed -/

theorem mem_elementPaths_iff {p : Path} : p ∈ elementPaths tree place ↔
    ∃ element ∈ tree.namesAt (place ++ ["elements"]), p = place ++ ["elements", element] := by
  simp only [elementPaths, List.mem_map, eq_comm]

/-- The paths of elements are those at which something stands. -/
theorem append_mem_elementPaths_iff (htree : tree.IsTree) (place : Path) {element : String} :
    place ++ ["elements", element] ∈ elementPaths tree place ↔
      (tree.at? (place ++ ["elements", element])).isSome = true := by
  have hinj : ∀ other, place ++ ["elements", element] = place ++ ["elements", other] ↔
      element = other := by simp
  simp only [mem_elementPaths_iff, hinj, exists_eq_right']
  rw [mem_namesAt_iff htree (by simp), List.append_assoc]
  rfl

/-- What stands below a path is below something. -/
theorem isSome_at?_of_append {q : Path} (hplace : place ≠ [])
    (h : (tree.at? (place ++ q)).isSome = true) : (tree.at? place).isSome = true := by
  rw [Value.at?_append hplace] at h
  exact Option.isSome_of_isSome_bind h

/-- What is a mapping if it is there, and is there, is a mapping. -/
theorem any_isMap_of_all {v? : Option Value} (hall : v?.all Value.isMap = true)
    (hsome : v?.isSome = true) : v?.any Value.isMap = true := by
  obtain ⟨v, rfl⟩ := Option.isSome_iff_exists.mp hsome
  exact hall

/-- **The paths that hold styles** are the places of styles at which something stands. The styles as
a whole must be a mapping. -/
theorem mem_stylePaths_iff (htree : tree.IsTree)
    (hstyles : (tree.at? ["styles"]).all Value.isMap = true) {p : Path} :
    p ∈ stylePaths tree ↔ StylePlace p ∧ (tree.at? p).isSome = true := by
  constructor
  · intro h
    rw [stylePaths] at h
    split at h
    next hmap =>
      rcases List.mem_cons.mp h with rfl | h
      · exact ⟨.root, Option.isSome_of_any hmap⟩
      rcases List.mem_append.mp h with h | h
      · obtain ⟨element, -, rfl⟩ := mem_elementPaths_iff.mp h
        exact ⟨.element element, (append_mem_elementPaths_iff htree _).mp h⟩
      · obtain ⟨name, hname, h⟩ := List.mem_flatMap.mp h
        rcases List.mem_cons.mp h with rfl | h
        · exact ⟨.block name, (mem_namesAt_iff htree (List.cons_ne_nil _ _)).mp hname⟩
        · obtain ⟨element, -, rfl⟩ := mem_elementPaths_iff.mp h
          exact ⟨.blockElement name element, (append_mem_elementPaths_iff htree _).mp h⟩
    next => cases h
  · rintro ⟨hplace, h⟩
    have hmap : (tree.at? ["styles"]).any Value.isMap = true := by
      obtain ⟨rest, rfl⟩ := hplace.exists_eq_cons
      exact any_isMap_of_all hstyles (isSome_at?_of_append (List.cons_ne_nil "styles" []) h)
    rw [stylePaths, if_pos hmap]
    cases hplace with
    | root => exact List.mem_cons_self
    | element name =>
      refine List.mem_cons_of_mem _ (List.mem_append_left _ ?_)
      exact (append_mem_elementPaths_iff htree ["styles"]).mpr h
    | block name =>
      refine List.mem_cons_of_mem _ (List.mem_append_right _ (List.mem_flatMap.mpr ⟨name, ?_, ?_⟩))
      · exact (mem_namesAt_iff htree (List.cons_ne_nil _ _)).mpr h
      · exact List.mem_cons_self
    | blockElement name element =>
      refine List.mem_cons_of_mem _ (List.mem_append_right _ (List.mem_flatMap.mpr ⟨name, ?_, ?_⟩))
      · refine (mem_namesAt_iff htree (List.cons_ne_nil _ _)).mpr ?_
        exact isSome_at?_of_append (q := ["elements", element]) (List.cons_ne_nil _ _) h
      · refine List.mem_cons_of_mem _ ?_
        exact (append_mem_elementPaths_iff htree ["styles", "blocks", name]).mpr h

/-! ### No path twice -/

theorem nodup_elementPaths (htree : tree.IsTree) (place : Path) :
    (elementPaths tree place).Nodup := by
  refine (nodup_namesAt htree _).map ?_
  intro element other heq
  simpa using heq

theorem nodup_blockPaths (htree : tree.IsTree) (name : String) : (blockPaths tree name).Nodup := by
  refine List.nodup_cons.mpr ⟨fun h => ?_, nodup_elementPaths htree _⟩
  obtain ⟨element, -, heq⟩ := mem_elementPaths_iff.mp h
  cases heq

/-- The name of a block is told from each of its paths. -/
theorem exists_of_mem_blockPaths {p : Path} (h : p ∈ blockPaths tree name) :
    ∃ rest, p = "styles" :: "blocks" :: name :: rest := by
  rcases List.mem_cons.mp h with rfl | h
  · exact ⟨_, rfl⟩
  · obtain ⟨element, -, rfl⟩ := mem_elementPaths_iff.mp h
    exact ⟨_, rfl⟩

/-- **No path is listed twice.** -/
theorem nodup_stylePaths (htree : tree.IsTree) : (stylePaths tree).Nodup := by
  have hblocks : ((tree.namesAt ["styles", "blocks"]).flatMap (blockPaths tree)).Nodup := by
    refine List.nodup_flatMap.mpr ⟨fun name _ => nodup_blockPaths htree name, ?_⟩
    refine (nodup_namesAt htree _).imp fun hne p hp hp' => ?_
    obtain ⟨rest, rfl⟩ := exists_of_mem_blockPaths hp
    obtain ⟨rest', heq⟩ := exists_of_mem_blockPaths hp'
    simp only [List.cons.injEq, true_and] at heq
    exact hne heq.1
  have happart : List.Disjoint (elementPaths tree ["styles"])
      ((tree.namesAt ["styles", "blocks"]).flatMap (blockPaths tree)) := by
    intro p hp hp'
    obtain ⟨element, -, rfl⟩ := mem_elementPaths_iff.mp hp
    obtain ⟨name, -, hp'⟩ := List.mem_flatMap.mp hp'
    obtain ⟨rest, heq⟩ := exists_of_mem_blockPaths hp'
    simp at heq
  rw [stylePaths]
  split
  · refine List.nodup_cons.mpr ⟨fun h => ?_, (nodup_elementPaths htree _).append hblocks happart⟩
    rcases List.mem_append.mp h with h | h
    · obtain ⟨element, -, heq⟩ := mem_elementPaths_iff.mp h
      cases heq
    · obtain ⟨name, -, h⟩ := List.mem_flatMap.mp h
      obtain ⟨rest, heq⟩ := exists_of_mem_blockPaths h
      cases heq
  · exact List.nodup_nil

/-! ### The scopes -/

/-- The scope of styles at a path. -/
def scopeAt (table : BlockTable) (path : Path) : Scope :=
  ⟨path, styleSelector? table path, styleDuotone? table path⟩

/-- The scopes of elements, read off their paths. -/
theorem map_scopeAt_elementPaths {v : Value} (table : BlockTable) (hne : place ≠ [])
    (hv : tree.at? place = some v) (ofName : String → Scope)
    (hname : ∀ element, ofName element = scopeAt table (place ++ ["elements", element])) :
    (match v.entryNamed? "elements" with
      | some part => (Scope.entryNames part).map ofName
      | none => []) = (elementPaths tree place).map (scopeAt table) := by
  rw [elementPaths, Value.namesAt, Value.at?_append hne, hv, Option.bind_some,
    Value.walk?_singleton, List.map_map]
  cases v.entryNamed? "elements" with
  | none => rfl
  | some part => exact List.map_congr_left fun element _ => hname element

/-- Going through entries is going through their names. -/
theorem flatMap_entryNames {β : Type} {f : String → Value → List β} {g : String → List β}
    (mark : Option Mark) (h : ∀ name v, (.text name, v) ∈ es → f name v = g name) :
    (es.flatMap fun entry => match entry.1 with
      | .text name => f name entry.2
      | _ => []) = (Scope.entryNames (.map es mark)).flatMap g := by
  induction es with
  | nil => rfl
  | cons e es ih =>
    have hrest := ih fun name v hmem => h name v (List.mem_cons_of_mem e hmem)
    rw [List.flatMap_cons, hrest]
    obtain ⟨k, v⟩ := e
    cases k with
    | text name =>
      have hone := h name v List.mem_cons_self
      dsimp only
      rw [hone]
      rfl
    | _ => rfl

/-- The scopes of a block, read off their paths. -/
theorem ofStyledBlock_eq {block : Value}
    (hblock : tree.at? ["styles", "blocks", name] = some block) :
    Scope.ofStyledBlock table name block = (blockPaths tree name).map (scopeAt table) := by
  have helements := map_scopeAt_elementPaths table (List.cons_ne_nil _ _) hblock
    (fun element =>
      { path := ["styles", "blocks", name, "elements", element]
        selector := (table.find? name).bind fun m => m.elements.lookup element })
    fun element => rfl
  rw [Scope.ofStyledBlock, blockPaths, List.map_cons, ← helements]
  rfl

/-- **The scopes of styles, read off their paths.** -/
theorem styleScopes_eq_map (htree : tree.IsTree) (table : BlockTable) :
    styleScopes table tree = (stylePaths tree).map (scopeAt table) := by
  have hstyles : tree.at? ["styles"] = tree.entryNamed? "styles" :=
    Value.walk?_singleton "styles" tree
  rw [styleScopes, stylePaths, hstyles]
  cases hsome : tree.entryNamed? "styles" with
  | none => rfl
  | some v =>
    rw [hsome] at hstyles
    cases v with
    | map es mark =>
      have hwalk : ∀ rest : Path, tree.at? ("styles" :: rest) = walk? rest (.map es mark) := by
        intro rest
        rw [Value.at?_cons, Value.walk?_cons, hsome, Option.bind_some]
      obtain ⟨rfl, -⟩ := Value.isTree_map.mp (htree.at? hstyles)
      have helements : Scope.ofRootElements (.map es) =
          (elementPaths tree ["styles"]).map (scopeAt table) :=
        map_scopeAt_elementPaths table (List.cons_ne_nil _ _) hstyles _ fun element => rfl
      have hblocks : Scope.ofStyledBlocks table (.map es) =
          ((tree.namesAt ["styles", "blocks"]).flatMap (blockPaths tree)).map (scopeAt table) := by
        have hpart : tree.at? ["styles", "blocks"] = Entries.named? "blocks" es := by
          rw [hwalk, Value.walk?_singleton_map]
        rw [Scope.ofStyledBlocks, Value.entryNamed?, Value.namesAt, hpart, List.map_flatMap]
        cases hb : Entries.named? "blocks" es with
        | none => rfl
        | some b =>
          cases b with
          | map bs mark =>
            have hbs := (Value.isTree_map.mp (htree.at? (hpart.trans hb))).2
            refine flatMap_entryNames mark fun name block hmem => ofStyledBlock_eq ?_
            rw [hwalk, Value.walk?_cons_map, hb, Option.bind_some, Value.walk?_singleton_map]
            exact Entries.get?_of_mem hbs.distinct hmem
          | _ => rfl
      have hmap : Option.any Value.isMap (some (.map es)) = true := rfl
      rw [if_pos hmap, List.map_cons, List.map_append, ← helements, ← hblocks]
      rfl
    | _ => rfl

end ThemeSheet
