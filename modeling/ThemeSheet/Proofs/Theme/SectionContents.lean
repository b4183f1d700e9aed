import ThemeSheet.Proofs.Schema.OtherNames
import ThemeSheet.Proofs.Theme.ScopeWrites

/-!
# What remains of a section

A section of a tree is written anew from its scopes, one after the other: what remains of a scope is
written where the scope is. So what remains of the section has the shape of the section. First come
the entries that remain of the section itself, and behind them stands, under one name, what remains
of every part of a group: the elements, or the blocks. A part of which nothing remains is not there,
and neither is a group without parts.

Described like that, the content of a section is cleaned into itself as soon as the scopes are.

## Main definitions

* `Entries.within`, entries with a group under a name;
* `Theme.keepEach`, `Theme.withGroup`, what remains of a group and of entries with a group;
* `Theme.partsWithGroup`, the scopes of entries with a group by their paths;
* `Theme.IsContent`, of what is written of scopes.

## Main results

* `Theme.IsCleaner.withGroup`: what remains with a group is cleaned into itself;
* `Theme.IsContent.withGroup`: writing scope by scope gives that content.
-/

namespace ThemeSheet

open Value (walk?)

/-! ### Groups of entries -/

namespace Entries

variable {name other : String} {base inner remains kept : Entries} {q : Path}

/-- Entries with a group of entries under a name, unless the group is empty. -/
def within (name : String) (base inner : Entries) : Entries :=
  if inner.isEmpty then base else insert (.text name) (.map inner) base

@[simp] theorem within_nil (name : String) (base : Entries) : within name base [] = base := rfl

theorem within_of_ne_nil (h : inner ≠ []) (name : String) (base : Entries) :
    within name base inner = insert (.text name) (.map inner) base := by
  rw [within, if_neg (by simpa using h)]

theorem named?_within_of_ne (h : other ≠ name) (base inner : Entries) :
    named? other (within name base inner) = named? other base := by
  rw [within]
  split
  · rfl
  · rw [named?_insert, if_neg h]

theorem named?_within_self (h : named? name base = none) (inner : Entries) :
    named? name (within name base inner) = if inner = [] then none else some (.map inner) := by
  by_cases hinner : inner = []
  · rw [hinner, if_pos rfl, within_nil, h]
  · rw [within_of_ne_nil hinner, named?_insert, if_pos rfl, if_neg hinner]

theorem under_within (h : named? name base = none) (inner : Entries) :
    under name (within name base inner) = inner := by
  rw [under, named?_within_self h]
  by_cases hinner : inner = []
  · rw [if_pos hinner, hinner]
    rfl
  · rw [if_neg hinner]
    rfl

theorem insert_within (name : String) (v : Value) (base inner : Entries) :
    insert (.text name) v (within name base inner) = insert (.text name) v base := by
  rw [within]
  split
  · rfl
  · exact insert_insert _ _ _ _

/-- What is written below a name is written into the group of that name. -/
theorem setEntries_within (h : named? name base = none) (hq : q ≠ []) (v : Value)
    (inner : Entries) : Value.setEntries (name :: q) v (within name base inner) =
      within name base (Value.setEntries q v inner) := by
  have hgroup : (Value.orEmptyMap (named? name (within name base inner))).onMap
      (Value.setEntries q v) = .map (Value.setEntries q v inner) := by
    rw [named?_within_self h]
    by_cases hinner : inner = []
    · rw [if_pos hinner, hinner]
      rfl
    · rw [if_neg hinner]
      rfl
  rw [Value.setEntries_cons hq, hgroup, insert_within,
    within_of_ne_nil (Value.setEntries_ne_nil hq v inner)]

/-- Writes entries that remain at a path, unless there are none; at the empty path they are all
there is. -/
def put (path : Path) (remains kept : Entries) : Entries :=
  if remains = [] then kept
  else if path = [] then remains
  else Value.setEntries path (.map remains) kept

theorem put_of_ne_nil (hq : q ≠ []) (remains kept : Entries) : put q remains kept =
    if remains.isEmpty then kept else Value.setEntries q (.map remains) kept := by
  rw [put, if_neg hq]
  cases remains <;> rfl

/-- What remains below a name is written into the group of that name. -/
theorem put_within (h : named? name base = none) (q : Path) (remains inner : Entries) :
    put (name :: q) remains (within name base inner) =
      within name base (put q remains inner) := by
  by_cases hremains : remains = []
  · rw [put, put, if_pos hremains, if_pos hremains]
  rw [put, put, if_neg hremains, if_neg hremains, if_neg (List.cons_ne_nil name q)]
  by_cases hq : q = []
  · rw [if_pos hq, hq, within_of_ne_nil hremains]
    exact insert_within name (.map remains) base inner
  · rw [if_neg hq, setEntries_within h hq]

end Entries

/-- The entries of the mapping under a name of a value. -/
def Value.under (name : String) (v : Value) : Entries :=
  ((v.entryNamed? name).bind Value.entries?).getD []

theorem Value.under_of_entryNamed? {name : String} {v : Value} {es : Entries}
    (h : v.entryNamed? name = Entries.named? name es) : v.under name = es.under name := by
  rw [under, h, Entries.under]

theorem Value.areTrees_under {v : Value} (h : v.IsTree) (name : String) :
    (v.under name).AreTrees := by
  rw [under]
  cases hv : v.entryNamed? name with
  | none => exact Entries.areTrees_nil
  | some w =>
    have hw : w.IsTree := h.walk? ((walk?_singleton name v).trans hv)
    cases w with
    | map es mark => exact (isTree_map.mp hw).2
    | _ => exact Entries.areTrees_nil

namespace Theme

variable {name : String} {names : List String} {clean own part : Value → Except Refusal Entries}

/-! ### What remains of a group -/

/-- What remains of an entry, under the name of the entry. -/
def keepEntry (content : Value → Except Refusal Entries) (e : Key × Value) :
    Except Refusal Entries :=
  match e.1 with
  | .text name => (content e.2).map (Entries.within name [])
  | _ => .ok []

/-- What remains of every entry. -/
def keepEach (content : Value → Except Refusal Entries) (es : Entries) :
    Except Refusal Entries := Result.gather (keepEntry content) es

/-- What remains of an entry is something under the name of the entry, or nothing. -/
theorem cases_of_keepEntry {e : Key × Value} {kept : Entries} (h : keepEntry part e = .ok kept) :
    kept = [] ∨ ∃ name remains, e.1 = .text name ∧ part e.2 = .ok remains ∧ remains ≠ [] ∧
      kept = [(.text name, .map remains)] := by
  rw [keepEntry] at h
  split at h
  next name hname =>
    obtain ⟨remains, hremains, rfl⟩ := Result.exists_of_map h
    by_cases hempty : remains = []
    · exact .inl (by rw [hempty]; rfl)
    · exact .inr ⟨name, remains, hname, hremains, hempty, Entries.within_of_ne_nil hempty name []⟩
  next =>
    cases h
    exact .inl rfl

theorem key_of_mem_keepEntry {e f : Key × Value} {kept : Entries}
    (h : keepEntry part e = .ok kept) (hf : f ∈ kept) : f.1 = e.1 := by
  rcases cases_of_keepEntry h with rfl | ⟨name, remains, hname, -, -, rfl⟩
  · cases hf
  · rw [List.mem_singleton.mp hf, hname]

/-- The keys of what remains of entries are keys of the entries, in their order. -/
theorem keys_keepEach_sublist {es kept : Entries} (h : keepEach part es = .ok kept) :
    (kept.map Prod.fst).Sublist (es.map Prod.fst) := by
  induction es generalizing kept with
  | nil =>
    cases h
    exact List.Sublist.slnil
  | cons e es ih =>
    rw [keepEach, Result.gather_cons] at h
    obtain ⟨first, hfirst, h⟩ := Result.exists_of_bind h
    obtain ⟨others, hothers, h⟩ := Result.exists_of_bind h
    cases h
    rcases cases_of_keepEntry hfirst with rfl | ⟨name, remains, hname, -, -, rfl⟩
    · exact (ih hothers).cons e.1
    · rw [List.map_append, List.map_cons, List.map_cons, hname]
      exact (ih hothers).cons_cons (.text name)

theorem distinct_keepEach {es kept : Entries} (hd : es.Distinct)
    (h : keepEach part es = .ok kept) : kept.Distinct :=
  Entries.distinct_iff_keys.mpr
    ((Entries.distinct_iff_keys.mp hd).sublist (keys_keepEach_sublist h))

/-- **What remains of entries** is what remains of each of them, if anything does. -/
theorem mem_keepEach_iff {es kept : Entries} (h : keepEach part es = .ok kept)
    {f : Key × Value} : f ∈ kept ↔ ∃ name v remains, (.text name, v) ∈ es ∧
      part v = .ok remains ∧ remains ≠ [] ∧ f = (.text name, .map remains) := by
  rw [Result.mem_of_gather h]
  constructor
  · rintro ⟨⟨key, v⟩, he, cs, hcs, hmem⟩
    rcases cases_of_keepEntry hcs with rfl | ⟨name, remains, rfl, hremains, hne, rfl⟩
    · cases hmem
    · exact ⟨name, v, remains, he, hremains, hne, List.mem_singleton.mp hmem⟩
  · rintro ⟨name, v, remains, he, hremains, hne, rfl⟩
    refine ⟨_, he, [(.text name, .map remains)], ?_, List.mem_singleton_self _⟩
    show (part v).map (Entries.within name []) = _
    rw [hremains]
    exact congrArg Except.ok (Entries.within_of_ne_nil hne name [])

/-- What remains of entries and of a group among them. -/
def withGroup (name : String) (own part : Value → Except Refusal Entries) (v : Value) :
    Except Refusal Entries := do
  let kept ← own v
  let group ← keepEach part (v.under name)
  return Entries.within name kept group

/-! ### Scope by scope -/

/-- A value at a path below a name. -/
def below (name : String) (part : Path × Value) : Path × Value := (name :: part.1, part.2)

/-- A value without groups is a scope of its own. -/
def onlyPart (v : Value) : List (Path × Value) := [([], v)]

/-- The scopes of an entry, if it has a name. -/
def entryParts (parts : Value → List (Path × Value)) (e : Key × Value) : List (Path × Value) :=
  match e.1 with
  | .text name => (parts e.2).map (below name)
  | _ => []

/-- The scopes of entries with a group. -/
def partsWithGroup (name : String) (own part : Value → List (Path × Value)) (v : Value) :
    List (Path × Value) :=
  own v ++ ((v.under name).flatMap (entryParts part)).map (below name)

/-- Writes what remains of a scope. -/
def keepPart (clean : Value → Except Refusal Entries) (kept : Entries) (part : Path × Value) :
    Except Refusal Entries := (clean part.2).map fun remains => Entries.put part.1 remains kept

theorem foldlM_below {base : Entries} (h : Entries.named? name base = none)
    (clean : Value → Except Refusal Entries) (parts : List (Path × Value)) (inner : Entries) :
    (parts.map (below name)).foldlM (keepPart clean) (Entries.within name base inner) =
      (parts.foldlM (keepPart clean) inner).map (Entries.within name base) := by
  rw [List.foldlM_map]
  refine Result.foldlM_hom (fun inner part _ => ?_) inner
  rw [keepPart, keepPart, below]
  cases clean part.2 with
  | error e => rfl
  | ok remains => exact congrArg Except.ok (Entries.put_within h part.1 remains inner)

/-- The content of a value is what is written of its scopes. -/
def IsContent (clean : Value → Except Refusal Entries) (parts : Value → List (Path × Value))
    (content : Value → Except Refusal Entries) : Prop :=
  ∀ v, v.IsTree → (parts v).foldlM (keepPart clean) [] = content v

/-- A scope without groups is written whole. -/
theorem isContent_onlyPart (clean : Value → Except Refusal Entries) :
    IsContent clean onlyPart clean := by
  intro v _
  show (keepPart clean [] ([], v) >>= pure) = clean v
  rw [keepPart]
  cases clean v with
  | error e => rfl
  | ok remains =>
    refine congrArg Except.ok (?_ : Entries.put [] remains [] = remains)
    by_cases hremains : remains = []
    · rw [hremains]
      rfl
    · rw [Entries.put, if_neg hremains, if_pos rfl]

/-- What is written of the scopes of an entry comes behind what is there. -/
theorem foldlM_entryParts {parts : Value → List (Path × Value)}
    (hparts : IsContent clean parts part) {e : Key × Value} (he : e.2.IsTree) {done : Entries}
    (hdone : Entries.get? e.1 done = none) :
    (entryParts parts e).foldlM (keepPart clean) done = (keepEntry part e).map (done ++ ·) := by
  rw [entryParts, keepEntry]
  split
  next name hname =>
    rw [hname] at hdone
    have hbelow := foldlM_below hdone clean (parts e.2) []
    rw [Entries.within_nil, hparts e.2 he] at hbelow
    rw [hbelow]
    cases part e.2 with
    | error err => rfl
    | ok remains =>
      refine congrArg Except.ok ?_
      by_cases hremains : remains = []
      · rw [hremains]
        exact (List.append_nil done).symm
      · rw [Entries.within_of_ne_nil hremains, Entries.within_of_ne_nil hremains,
          Entries.insert_of_get?_eq_none hdone]
        rfl
  next => exact congrArg Except.ok (List.append_nil done).symm

/-- What is written of the scopes of entries comes behind what is there. -/
theorem foldlM_flatMap_entryParts {parts : Value → List (Path × Value)}
    (hparts : IsContent clean parts part) {es : Entries} (hes : es.AreTrees) {done : Entries}
    (hdone : ∀ e ∈ es, Entries.get? e.1 done = none) :
    (es.flatMap (entryParts parts)).foldlM (keepPart clean) done =
      (keepEach part es).map (done ++ ·) := by
  induction es generalizing done with
  | nil => exact congrArg Except.ok (List.append_nil done).symm
  | cons e es ih =>
    obtain ⟨hhead, hrest⟩ := List.forall_mem_cons.mp hdone
    rw [List.flatMap_cons, List.foldlM_append,
      foldlM_entryParts hparts (hes.value e List.mem_cons_self) hhead, keepEach,
      Result.gather_cons]
    cases hkept : keepEntry part e with
    | error err => rfl
    | ok kept =>
      have hdone' : ∀ f ∈ es, Entries.get? f.1 (done ++ kept) = none := by
        intro f hf
        refine Entries.get?_eq_none_iff.mpr fun g hg => ?_
        rcases List.mem_append.mp hg with hg | hg
        · exact Entries.get?_eq_none_iff.mp (hrest f hf) g hg
        · rw [key_of_mem_keepEntry hkept hg, Key.agrees_comm]
          exact (Entries.distinct_cons.mp hes.distinct).1 f hf
      refine (ih hes.of_cons hdone').trans ?_
      dsimp only [bind, Except.bind]
      rw [keepEach]
      cases Result.gather (keepEntry part) es with
      | error err => rfl
      | ok others => exact congrArg Except.ok (List.append_assoc done kept others)

/-- **Writing scope by scope** gives what remains of the entries and of the group. -/
theorem IsContent.withGroup {ownParts partParts : Value → List (Path × Value)}
    (hown : IsContent clean ownParts own) (hpart : IsContent clean partParts part)
    (hfree : ∀ v kept, own v = .ok kept → Entries.named? name kept = none) :
    IsContent clean (partsWithGroup name ownParts partParts) (withGroup name own part) := by
  intro v hv
  rw [partsWithGroup, List.foldlM_append, hown v hv, Theme.withGroup]
  cases hkept : own v with
  | error e => rfl
  | ok kept =>
    have hbelow := foldlM_below (hfree v kept hkept) clean
      ((v.under name).flatMap (entryParts partParts)) []
    rw [Entries.within_nil, foldlM_flatMap_entryParts hpart (Value.areTrees_under hv name)
      (by simp)] at hbelow
    refine hbelow.trans ?_
    dsimp only [bind, Except.bind]
    cases keepEach part (v.under name) with
    | error e => rfl
    | ok group => rfl

/-! ### Cleaning what remains -/

/-- What remains of a group remains of it again. -/
theorem keepEach_kept (hpart : IsCleaner names part) {es kept : Entries}
    (h : keepEach part es = .ok kept) : keepEach part kept = .ok kept := by
  refine Result.gather_found (fun e _ kept h => ?_) h
  rcases cases_of_keepEntry h with rfl | ⟨name, remains, -, hremains, hne, rfl⟩
  · rfl
  · refine (Result.gather_singleton _).trans ?_
    show (part (.map remains)).map (Entries.within name []) = _
    rw [hpart.stable e.2 remains (.map remains) hremains fun _ _ => rfl]
    exact congrArg Except.ok (Entries.within_of_ne_nil hne name [])

/-- What remains of a value is accepted where the value was. -/
theorem IsCleaner.accepts (h : IsCleaner names part) {s : Schema} {v : Value} {remains : Entries}
    (hv : s.Accepts v) (hremains : part v = .ok remains) (hne : remains ≠ []) :
    s.Accepts (.map remains) := by
  cases s with
  | any => exact Schema.accepts_any _
  | fields sub =>
    obtain ⟨es, rfl, -, hes⟩ := Schema.accepts_fields.mp hv
    exact Schema.accepts_fields.mpr ⟨remains, rfl, hne, h.fits sub es remains hremains hes⟩

/-- What remains of a group fits where the group did. -/
theorem fits_keepEach (hpart : IsCleaner names part) {fields : List (String × Schema)}
    {es kept : Entries} (hes : Schema.Fits fields es) (h : keepEach part es = .ok kept) :
    Schema.Fits fields kept := by
  refine Schema.fits_iff.mpr ⟨distinct_keepEach hes.distinct h, fun f hf => ?_⟩
  obtain ⟨name, v, remains, he, hremains, hne, rfl⟩ := (mem_keepEach_iff h).mp hf
  obtain ⟨s, hs, hsv⟩ := hes.value he
  exact ⟨s, hs, hpart.accepts hsv hremains hne⟩

/-- What remains with a group fits where the entries did. -/
theorem fits_within (hpart : IsCleaner names part) {fields : List (String × Schema)}
    {es kept group : Entries} (hes : Schema.Fits fields es) (hkept : Schema.Fits fields kept)
    (h : keepEach part (Entries.under name es) = .ok group) :
    Schema.Fits fields (Entries.within name kept group) := by
  by_cases hempty : group = []
  · rw [hempty]
    exact hkept
  rw [Entries.within_of_ne_nil hempty]
  cases hv : Entries.named? name es with
  | none =>
    rw [Entries.under_of_named?_eq_none hv] at h
    cases h
    exact absurd rfl hempty
  | some v =>
    obtain ⟨s, hs, hsv⟩ := hes.named? hv
    refine hkept.insert hs ?_
    cases s with
    | any => exact Schema.accepts_any _
    | fields sub =>
      obtain ⟨inner, rfl, -, hinner⟩ := Schema.accepts_fields.mp hsv
      rw [Entries.under_of_named? hv] at h
      exact Schema.accepts_fields.mpr ⟨group, rfl, hempty, fits_keepEach hpart hinner h⟩

/-- **Entries with a group are cleaned without other names**, if the entries are cleaned without
those names and without that of the group, and every part of the group is cleaned. -/
theorem IsCleaner.withGroup (hown : IsCleaner (name :: names) own) {others : List String}
    (hpart : IsCleaner others part) (hname : name ∉ names) :
    IsCleaner names (withGroup name own part) := by
  have hfree : ∀ {v kept}, own v = .ok kept → Entries.named? name kept = none :=
    fun h => hown.apart _ _ h name List.mem_cons_self
  have hother : ∀ {other}, other ∉ name :: names → other ≠ name :=
    fun h heq => h (heq ▸ List.mem_cons_self)
  refine ⟨fun v remains w h hsame => ?_, fun v remains h other hmem => ?_, ?_,
    fun fields es remains h hfits => ?_⟩
  · obtain ⟨kept, hkept, h⟩ := Result.exists_of_bind h
    obtain ⟨group, hgroup, h⟩ := Result.exists_of_bind h
    cases h
    have hown' : own w = .ok kept := by
      refine hown.stable v kept w hkept fun other hne => ?_
      rw [hsame other fun hmem => hne (List.mem_cons_of_mem name hmem),
        Entries.named?_within_of_ne (hother hne)]
    have hunder : w.under name = group := by
      rw [Value.under_of_entryNamed? (hsame name hname), Entries.under_within (hfree hkept)]
    rw [Theme.withGroup, hown', hunder, keepEach_kept hpart hgroup]
    rfl
  · obtain ⟨kept, hkept, h⟩ := Result.exists_of_bind h
    obtain ⟨group, hgroup, h⟩ := Result.exists_of_bind h
    cases h
    have hne : other ≠ name := fun heq => hname (heq ▸ hmem)
    rw [Entries.named?_within_of_ne hne]
    exact hown.apart v kept hkept other (List.mem_cons_of_mem name hmem)
  · rw [Theme.withGroup, hown.null]
    rfl
  · obtain ⟨kept, hkept, h⟩ := Result.exists_of_bind h
    obtain ⟨group, hgroup, h⟩ := Result.exists_of_bind h
    cases h
    exact fits_within hpart hfits (hown.fits fields es kept hkept hfits) hgroup

end Theme

end ThemeSheet
