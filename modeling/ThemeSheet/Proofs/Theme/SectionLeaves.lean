import ThemeSheet.Proofs.Theme.CleanSections

/-!
# The leaves of a cleaned section

What remains of a section consists of what remains of its scopes, so its leaves are those of the
scopes, each at the path of its scope. If it is known what the leaves of a scope are, then also what
the leaves of the section of a cleaned tree are, scope by scope.

## Main definitions

* `Value.isLeaf`, of values without entries;
* `Theme.HoldsLeaves`, of contents whose leaves are those of their scopes;
* `Theme.LeavesAre`, of cleanings whose leaves are known.

## Main results

* `Theme.HoldsLeaves.withGroup`: the leaves of entries with a group;
* `Theme.LeavesAre.walk?_iff`, `Theme.LeavesAre.bind_walk?_iff`: the leaves of a section.
-/

namespace ThemeSheet

open Entries (under)
open Value (walk?)

/-- Whether a value has no entries: every value but a mapping that has some. -/
def Value.isLeaf : Value → Bool
  | .map es _ => es.isEmpty
  | _ => true

namespace Value

variable {v : Value} {es : Entries}

theorem isLeaf_of_isMap (h : v.isMap = false) : v.isLeaf = true := by
  cases v with
  | map es mark => cases h
  | _ => rfl

theorem isLeaf_map {mark : Option Mark} : isLeaf (.map es mark) = true ↔ es = [] :=
  List.isEmpty_iff

end Value

namespace Theme

variable {check : SafetyCheck} {table : BlockTable} {es group : Entries} {name : String}
  {clean own part : Value → Except Refusal Entries} {q : Path} {v w : Value}
  {parts ownParts partParts : Value → List (Path × Value)}

/-! ### Leaves of the sections -/

/-- A leaf of what remains of one of several scopes, at the path of the scope. -/
def IsLeafOf (clean : Value → Except Refusal Entries) (parts : List (Path × Value)) (q : Path)
    (w : Value) : Prop :=
  ∃ part ∈ parts, ∃ rest left, q = part.1 ++ rest ∧ rest ≠ [] ∧ clean part.2 = .ok left ∧
    walk? rest (.map left) = some w

/-- The leaves of a content are those of what remains of the scopes. -/
def HoldsLeaves (clean : Value → Except Refusal Entries) (parts : Value → List (Path × Value))
    (content : Value → Except Refusal Entries) : Prop :=
  ∀ v remains, v.IsTree → content v = .ok remains → ∀ q w, q ≠ [] → w.isLeaf = true →
    (walk? q (.map remains) = some w ↔ IsLeafOf clean (parts v) q w)

theorem holdsLeaves_onlyPart (clean : Value → Except Refusal Entries) :
    HoldsLeaves clean onlyPart clean := by
  intro v remains _ h q w hq _
  constructor
  · exact fun hw => ⟨([], v), List.mem_singleton_self _, q, remains, rfl, hq, h, hw⟩
  · rintro ⟨part, hpart, rest, left, rfl, -, hleft, hw⟩
    rw [List.mem_singleton.mp hpart] at hleft ⊢
    cases h.symm.trans hleft
    exact hw

/-- A leaf of what remains of one of several scopes below a name. -/
theorem isLeafOf_below {scopes : List (Path × Value)} :
    IsLeafOf clean (scopes.map (below name)) q w ↔
      ∃ rest, q = name :: rest ∧ IsLeafOf clean scopes rest w := by
  constructor
  · rintro ⟨_, hscope, rest, left, rfl, hleaf⟩
    obtain ⟨scope, hmem, rfl⟩ := List.mem_map.mp hscope
    exact ⟨_, rfl, scope, hmem, rest, left, rfl, hleaf⟩
  · rintro ⟨_, rfl, scope, hscope, rest, left, rfl, hleaf⟩
    exact ⟨below name scope, List.mem_map_of_mem hscope, rest, left, rfl, hleaf⟩

theorem isLeafOf_append {scopes others : List (Path × Value)} :
    IsLeafOf clean (scopes ++ others) q w ↔
      IsLeafOf clean scopes q w ∨ IsLeafOf clean others q w := by
  simp only [IsLeafOf, List.mem_append, or_and_right, exists_or]

theorem ne_nil_of_isLeafOf {scopes : List (Path × Value)} (h : IsLeafOf clean scopes q w) :
    q ≠ [] := by
  obtain ⟨part, -, rest, left, rfl, hne, -⟩ := h
  simp [hne]

theorem isLeafOf_flatMap : IsLeafOf clean (es.flatMap (entryParts partParts)) q w ↔
    ∃ name v rest, (.text name, v) ∈ es ∧ q = name :: rest ∧
      IsLeafOf clean (partParts v) rest w := by
  constructor
  · rintro ⟨scope, hscope, hleaf⟩
    obtain ⟨⟨key, v⟩, he, hscope⟩ := List.mem_flatMap.mp hscope
    cases key with
    | text name =>
      obtain ⟨rest, rfl, hrest⟩ := isLeafOf_below.mp ⟨scope, hscope, hleaf⟩
      exact ⟨name, v, rest, he, rfl, hrest⟩
    | _ => cases hscope
  · rintro ⟨name, v, rest, he, rfl, hrest⟩
    obtain ⟨scope, hscope, hleaf⟩ := isLeafOf_below.mpr ⟨rest, rfl, hrest⟩
    exact ⟨scope, List.mem_flatMap.mpr ⟨_, he, hscope⟩, hleaf⟩

theorem walk?_empty (hq : q ≠ []) : walk? q (.map []) = none := by
  cases q with
  | nil => exact absurd rfl hq
  | cons name rest => rfl

/-- The leaves below a name are those of the group there. -/
theorem bind_walk?_iff (hw : w.isLeaf = true) :
    (if group = [] then none else some (Value.map group)).bind (walk? q) = some w ↔
      q ≠ [] ∧ walk? q (.map group) = some w := by
  by_cases hq : q = []
  · refine iff_of_false (fun hwalk => ?_) fun h => h.1 hq
    rw [hq] at hwalk
    split at hwalk
    · cases hwalk
    next hne =>
      cases hwalk
      exact hne (Value.isLeaf_map.mp hw)
  · rw [and_iff_right hq]
    split
    next hempty => rw [hempty, walk?_empty hq, Option.bind_none]
    next => rw [Option.bind_some]

/-- The leaves of what remains of a group are those of what remains of its parts. -/
theorem walk?_keepEach_iff (hpart : HoldsLeaves clean partParts part) (hes : es.AreTrees)
    (h : keepEach part es = .ok group) (hq : q ≠ []) (hw : w.isLeaf = true) :
    walk? q (.map group) = some w ↔ IsLeafOf clean (es.flatMap (entryParts partParts)) q w := by
  rw [isLeafOf_flatMap]
  constructor
  · intro hwalk
    obtain ⟨name, rest, rfl⟩ := List.exists_cons_of_ne_nil hq
    rw [Value.walk?_cons_map, Option.bind_eq_some_iff] at hwalk
    obtain ⟨x, hx, hwalk⟩ := hwalk
    obtain ⟨name', v, remains, he, hremains, hne, heq⟩ :=
      (mem_keepEach_iff h).mp (Entries.mem_of_named? hx)
    cases heq
    have hrest : rest ≠ [] := by
      rintro rfl
      cases hwalk
      exact hne (Value.isLeaf_map.mp hw)
    exact ⟨name, v, rest, he, rfl,
      (hpart v remains (hes.value _ he) hremains rest w hrest hw).mp hwalk⟩
  · rintro ⟨name, v, rest, he, rfl, hleaf⟩
    obtain ⟨cs, hcs⟩ := Result.exists_of_gather h he
    obtain ⟨remains, hremains, -⟩ := Result.exists_of_map hcs
    have hrest := ne_nil_of_isLeafOf hleaf
    have hwalk := (hpart v remains (hes.value _ he) hremains rest w hrest hw).mpr hleaf
    have hne : remains ≠ [] := by
      rintro rfl
      rw [walk?_empty hrest] at hwalk
      cases hwalk
    have hnamed : Entries.named? name group = some (.map remains) :=
      Entries.get?_of_mem (distinct_keepEach hes.distinct h)
        ((mem_keepEach_iff h).mpr ⟨name, v, remains, he, hremains, hne, rfl⟩)
    rw [Value.walk?_cons_map, hnamed, Option.bind_some, hwalk]

/-- The leaves of what remains with a group are those of the entries and those of the group. -/
theorem HoldsLeaves.withGroup (hown : HoldsLeaves clean ownParts own)
    (hpart : HoldsLeaves clean partParts part)
    (hfree : ∀ v kept, own v = .ok kept → Entries.named? name kept = none) :
    HoldsLeaves clean (partsWithGroup name ownParts partParts) (withGroup name own part) := by
  intro v remains hv h q w hq hw
  obtain ⟨kept, hkept, h⟩ := Result.exists_of_bind h
  obtain ⟨group, hgroup, h⟩ := Result.exists_of_bind h
  cases h
  have hnone := hfree v kept hkept
  have hgroupLeaves : ∀ {rest}, rest ≠ [] → (walk? rest (.map group) = some w ↔
      IsLeafOf clean ((v.under name).flatMap (entryParts partParts)) rest w) :=
    fun hrest => walk?_keepEach_iff hpart (Value.areTrees_under hv name) hgroup hrest hw
  rw [partsWithGroup, isLeafOf_append, ← hown v kept hv hkept q w hq hw, isLeafOf_below]
  obtain ⟨first, rest, rfl⟩ := List.exists_cons_of_ne_nil hq
  by_cases hfirst : first = name
  · subst hfirst
    have hkeptNone : walk? (first :: rest) (.map kept) = none := by
      rw [Value.walk?_cons_map, hnone, Option.bind_none]
    have hbelow : walk? (first :: rest) (.map (Entries.within first kept group)) = some w ↔
        IsLeafOf clean ((v.under first).flatMap (entryParts partParts)) rest w := by
      rw [Value.walk?_cons_map, Entries.named?_within_self hnone, bind_walk?_iff hw]
      exact ⟨fun h => (hgroupLeaves h.1).mp h.2,
        fun h => ⟨ne_nil_of_isLeafOf h, (hgroupLeaves (ne_nil_of_isLeafOf h)).mpr h⟩⟩
    rw [hbelow, hkeptNone]
    constructor
    · exact fun hleaf => .inr ⟨rest, rfl, hleaf⟩
    · rintro (hnone | ⟨rest', heq, hleaf⟩)
      · cases hnone
      · cases heq
        exact hleaf
  · rw [Value.walk?_cons_map, Entries.named?_within_of_ne hfirst, ← Value.walk?_cons_map]
    refine ⟨.inl, fun h => h.resolve_right ?_⟩
    rintro ⟨rest', heq, -⟩
    cases heq
    exact hfirst rfl

/-! ### Leaves of a section -/

/-- It is known what the leaves of what remains of a scope are, and with them those of a section. -/
structure LeavesAre (holds : Value → Path → Value → Prop) (clean : Value → Except Refusal Entries)
    (parts : Value → List (Path × Value)) (content : Value → Except Refusal Entries) : Prop where
  written : IsContent clean parts content
  leaves : HoldsLeaves clean parts content
  nothing : content (.map []) = .ok []
  ne_nil : ∀ part q w, holds part q w → q ≠ []
  /-- The leaves of what remains of one scope. -/
  scope : ∀ part left q w, clean part = .ok left → q ≠ [] → w.isLeaf = true →
    (walk? q (.map left) = some w ↔ holds part q w)

section LeavesAre

variable {holds : Value → Path → Value → Prop} {content : Value → Except Refusal Entries}
  {remains : Entries}

/-- The leaves of what remains of a section are those of its scopes. -/
theorem LeavesAre.walk?_iff (h : LeavesAre holds clean parts content) (hv : v.IsTree)
    (hremains : content v = .ok remains) (hq : q ≠ []) (hw : w.isLeaf = true) :
    walk? q (.map remains) = some w ↔
      ∃ part ∈ parts v, ∃ rest, q = part.1 ++ rest ∧ holds part.2 rest w := by
  rw [h.leaves v remains hv hremains q w hq hw]
  constructor
  · rintro ⟨part, hpart, rest, left, rfl, hrest, hleft, hwalk⟩
    exact ⟨part, hpart, rest, rfl, (h.scope _ _ _ _ hleft hrest hw).mp hwalk⟩
  · rintro ⟨part, hpart, rest, rfl, hholds⟩
    have hne := h.ne_nil _ _ _ hholds
    rw [← h.written v hv] at hremains
    obtain ⟨kept, kept', hstep⟩ := Result.exists_of_foldlM hremains hpart
    obtain ⟨left, hleft, -⟩ := Result.exists_of_map hstep
    exact ⟨part, hpart, rest, left, rfl, hne, hleft, (h.scope _ _ _ _ hleft hne hw).mpr hholds⟩

/-- What holds of the path and the part of a scope of a section holds of one of the scopes by their
paths. -/
theorem exists_scope_iff {scopes : List Scope} (hscopes : scopes.map (scopePart (.map es)) =
      if under name es = [] then [] else (parts (.map (under name es))).map (below name))
    (holds : Path → Value → Prop) :
    (∃ scope ∈ scopes, holds scope.path ((Value.map es).getD scope.path .emptyMap)) ↔
      under name es ≠ [] ∧ ∃ part ∈ parts (.map (under name es)),
        holds (name :: part.1) part.2 := by
  by_cases hempty : under name es = []
  · rw [if_pos hempty, List.map_eq_nil_iff] at hscopes
    simp [hscopes, hempty]
  · rw [if_neg hempty] at hscopes
    rw [and_iff_right hempty]
    constructor
    · rintro ⟨scope, hscope, hholds⟩
      obtain ⟨part, hpart, heq⟩ := List.mem_map.mp (hscopes ▸ List.mem_map_of_mem hscope)
      obtain ⟨hpath, hvalue⟩ := Prod.mk.inj heq
      exact ⟨part, hpart, by rwa [hpath, hvalue]⟩
    · rintro ⟨part, hpart, hholds⟩
      obtain ⟨scope, hscope, heq⟩ := List.mem_map.mp (hscopes ▸ List.mem_map_of_mem hpart)
      obtain ⟨hpath, hvalue⟩ := Prod.mk.inj heq
      exact ⟨scope, hscope, by rwa [hvalue, hpath]⟩

/-- **The leaves of a section of a cleaned tree** are those of the scopes of the section. -/
theorem LeavesAre.bind_walk?_iff (h : LeavesAre holds clean parts content) (hes : es.AreTrees)
    {scopes : List Scope} (hscopes : scopes.map (scopePart (.map es)) =
      if under name es = [] then [] else (parts (.map (under name es))).map (below name))
    (hremains : content (.map (under name es)) = .ok remains) (hw : w.isLeaf = true) :
    (if remains = [] then none else some (Value.map remains)).bind (walk? q) = some w ↔
      ∃ scope ∈ scopes, ∃ rest, name :: q = scope.path ++ rest ∧
        holds ((Value.map es).getD scope.path .emptyMap) rest w := by
  have hleaves : q ≠ [] → _ := fun hq => h.walk?_iff (isTree_under hes name) hremains hq hw
  rw [Theme.bind_walk?_iff hw, exists_scope_iff hscopes fun path part =>
    ∃ rest, name :: q = path ++ rest ∧ holds part rest w]
  constructor
  · rintro ⟨hq, hwalk⟩
    refine ⟨fun hempty => ?_, ?_⟩
    · rw [hempty, h.nothing] at hremains
      cases hremains
      rw [walk?_empty hq] at hwalk
      cases hwalk
    · obtain ⟨part, hpart, rest, rfl, hholds⟩ := (hleaves hq).mp hwalk
      exact ⟨part, hpart, rest, rfl, hholds⟩
  · rintro ⟨-, part, hpart, rest, heq, hholds⟩
    cases heq
    have hq : part.1 ++ rest ≠ [] := by simp [h.ne_nil _ _ _ hholds]
    exact ⟨hq, (hleaves hq).mpr ⟨part, hpart, rest, rfl, hholds⟩⟩

end LeavesAre

/-- A tree as it is cleaned: of the current version, and pruned. -/
def pruned (table : BlockTable) (raw : Value) : Value :=
  .map (sanitize table.names elementNames (Migration.run raw))

end Theme

end ThemeSheet
