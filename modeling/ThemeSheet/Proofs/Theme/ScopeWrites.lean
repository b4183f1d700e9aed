import ThemeSheet.Proofs.Theme.Cleaning
import ThemeSheet.Proofs.Tree.Leaves

/-!
# What is written of a scope

Cleaning writes what remains of a scope into nothing, leaf by leaf: the values whose declarations
pass, and the lists of safe presets. Which leaves are written depends only on what is found at the
paths of the properties and of the lists, and there the entries that are written hold the same
leaves and nothing else. So the same leaves are written when the entries are cleaned again.

The entries may by then be part of a larger mapping, which has elements and blocks beside them.

## Main definitions

* `Property.Kept`, of a value that is kept for a property;
* `Theme.styleWrites`, `Theme.settingWrites`, the leaves that are written;
* `Theme.IsCleaner`, what the sections of a tree require of the cleaning of scopes.

## Main results

* `Theme.mem_styleWrites_iff`: the leaves that are written of styles;
* `Theme.isCleaner_cleanStyles`, `Theme.isCleaner_cleanSettings`.
-/

namespace ThemeSheet

open ThemeSheet.Path (Diverges)
open Value (walk?)

/-- A value is kept for a property: it is declared whatever the settings are, and its declaration
passes. -/
structure Property.Kept (check : SafetyCheck) (styles : Value) (p : Property) (v : Value) :
    Prop where
  found : styles.at? p.path = some v
  ungated : p.gate? = none
  present : isMissing v = false
  passes : p.Passes check v

section Kept

variable {check : SafetyCheck} {styles v : Value} {p : Property} {d : Declaration}

/-- A declaration that passes is one that is kept for its property. -/
theorem Property.exists_kept (h : p.declaration? styles .null = .ok (some d))
    (hcheck : check d.name (.text d.value) = .ok true) :
    ∃ v, p.Kept check styles v ∧ d.name = p.name := by
  obtain ⟨v, hv, hgate, hmissing, hname, htext⟩ := Property.declaration?_null.mp h
  exact ⟨v, ⟨hv, hgate, hmissing, d.value, htext, hname ▸ hcheck⟩, hname⟩

/-- The declaration of a value that is kept. -/
theorem Property.Kept.exists_declaration? (h : p.Kept check styles v) :
    ∃ d, p.declaration? styles .null = .ok (some d) ∧
      check d.name (.text d.value) = .ok true ∧ d.name = p.name := by
  obtain ⟨text, htext, hcheck⟩ := h.passes
  exact ⟨⟨p.name, text⟩, Property.declaration?_null.mpr
    ⟨v, h.found, h.ungated, h.present, rfl, htext⟩, hcheck, rfl⟩

theorem Property.Kept.isMap (h : p.Kept check styles v) : v.isMap = false := by
  refine isMap_of_isMissing ?_
  rw [isMissing_writtenOut]
  exact h.present

/-- Where the value that is kept stands and no other, the declaration is made that passes. -/
theorem Property.declaration?_of_kept {styles' : Value} {o : Option Declaration}
    (hkept : ∀ v, v.isMap = false → (styles'.at? p.path = some v ↔ p.Kept check styles v))
    (ho : p.declaration? styles .null = .ok o) : p.declaration? styles' .null =
      .ok (o.filter fun d => Result.passes (check d.name (.text d.value))) := by
  by_cases hany : ∃ v, p.Kept check styles v
  · obtain ⟨v, hv⟩ := hany
    obtain ⟨d, hd, hcheck, -⟩ := hv.exists_declaration?
    cases ho.symm.trans hd
    have hat := ((hkept v hv.isMap).mpr hv).trans hv.found.symm
    rw [declaration?_congr hat, hd, Option.filter_some, if_pos (Result.passes_eq_true.mpr hcheck)]
  · have hnothing : ∀ v, styles'.at? p.path = some v → v.isMap = true := by
      intro v hv
      refine Bool.of_not_eq_false fun hmap => hany ⟨v, (hkept v hmap).mp hv⟩
    rw [declaration?_eq_none hnothing]
    cases o with
    | none => rfl
    | some d =>
      have hfails : ¬ Result.passes (check d.name (.text d.value)) = true := by
        intro hpasses
        obtain ⟨v, hv, -⟩ := exists_kept ho (Result.passes_eq_true.mp hpasses)
        exact hany ⟨v, hv⟩
      rw [Option.filter_some, if_neg hfails]

end Kept

/-- What is no mapping has nothing below it, so of two of them that are found in one tree neither
comes in the way of the other. -/
theorem Value.eq_or_diverges {tree v w : Value} {p q : Path} (hv : tree.walk? p = some v)
    (hw : tree.walk? q = some w) (hvmap : v.isMap = false) (hwmap : w.isMap = false) :
    p = q ∨ Diverges p q := by
  have hbelow : ∀ {p r : Path} {v w : Value}, tree.walk? p = some v → v.isMap = false →
      tree.walk? (p ++ r) = some w → r = [] := by
    intro p r v w hv hmap hw
    rw [walk?_append, hv, Option.bind_some] at hw
    cases r with
    | nil => rfl
    | cons name rest =>
      obtain ⟨inner, mark, rfl⟩ := exists_map_of_walk? hw
      cases hmap
  by_cases hpq : p <+: q
  · obtain ⟨r, rfl⟩ := hpq
    rw [hbelow hv hvmap hw, List.append_nil]
    exact .inl rfl
  by_cases hqp : q <+: p
  · obtain ⟨r, rfl⟩ := hqp
    rw [hbelow hw hwmap hv, List.append_nil]
    exact .inl rfl
  · exact .inr ⟨hpq, hqp⟩

namespace Theme

variable {check : SafetyCheck} {category : Category} {styles styles' settings settings' v : Value}
  {writes : List (Path × Value)} {q : Path} {d : Declaration}

/-! ### Styles -/

/-- The path and the value that are written of a declaration. -/
def styleWrite (styles : Value) (d : Declaration) : Path × Value :=
  let path := (pathOf? d.name).getD []
  (path, styles.getD path .emptyMap)

/-- The leaves that are written of the styles of a scope. -/
def styleWrites (check : SafetyCheck) (styles : Value) : Except Refusal (List (Path × Value)) := do
  let declarations ← styleDeclarations styles .null
  let kept ← passing check declarations
  return kept.map (styleWrite styles)

/-- **Cleaning the styles of a scope is writing.** -/
theorem cleanStyles_eq (check : SafetyCheck) (styles : Value) :
    cleanStyles check styles = (styleWrites check styles).map (Entries.setAll []) := by
  have hkeep : ∀ kept d, keepValue styles kept d =
      Value.setEntries (styleWrite styles d).1 (styleWrite styles d).2 kept := by
    intro kept d
    rw [keepValue, styleWrite]
    cases pathOf? d.name <;> rfl
  have hfold : ∀ ds : List Declaration, ds.foldl (keepValue styles) [] =
      Entries.setAll [] (ds.map (styleWrite styles)) := by
    intro ds
    rw [Entries.setAll, List.foldl_map]
    exact congrArg (fun f => ds.foldl f []) (funext fun kept => funext fun d => hkeep kept d)
  rw [cleanStyles, styleWrites]
  cases styleDeclarations styles .null with
  | error e => rfl
  | ok ds =>
    show (do let kept ← passing check ds; return kept.foldl (keepValue styles) []) =
      (do let kept ← passing check ds; return kept.map (styleWrite styles)).map _
    cases passing check ds with
    | error e => rfl
    | ok passed => exact congrArg Except.ok (hfold passed)

theorem passing_eq_filter {ds passed : List Declaration} (h : passing check ds = .ok passed) :
    passed = ds.filter fun d => Result.passes (check d.name (.text d.value)) :=
  Result.keeping_eq_filter (passing check) rfl (fun _ _ => rfl) h

theorem passing_passed {ds passed : List Declaration} (h : passing check ds = .ok passed) :
    passing check passed = .ok passed :=
  Result.keeping_kept (passing check) rfl (fun _ _ => rfl) h

theorem styleWrite_eq {p : Property} (hp : p ∈ properties) (hname : d.name = p.name)
    (hv : styles.at? p.path = some v) : styleWrite styles d = (p.path, v) := by
  rw [styleWrite, hname, pathOf?_name p hp]
  exact congrArg (Prod.mk p.path) (by rw [Option.getD_some, Value.getD, hv]; rfl)

/-- What passes is the declaration of a value that is kept. -/
theorem exists_kept_of_mem_passing {ds passed : List Declaration}
    (hds : styleDeclarations styles .null = .ok ds) (hpassed : passing check ds = .ok passed)
    (hd : d ∈ passed) : ∃ p ∈ properties, ∃ v, p.Kept check styles v ∧ d.name = p.name := by
  obtain ⟨hmem, hcheck⟩ := mem_of_passing hpassed hd
  obtain ⟨found, hfound, hfilter⟩ := Result.exists_of_bind hds
  cases hfilter
  obtain ⟨o, ho, rfl⟩ := List.mem_filterMap.mp hmem
  obtain ⟨p, hp, hdeclaration⟩ := Result.exists_of_mem_mapM hfound ho
  exact ⟨p, hp, Property.exists_kept hdeclaration hcheck⟩

/-- **The leaves that are written of styles** are the values that are kept. -/
theorem mem_styleWrites_iff (h : styleWrites check styles = .ok writes) :
    (q, v) ∈ writes ↔ ∃ p ∈ properties, q = p.path ∧ p.Kept check styles v := by
  obtain ⟨ds, hds, h⟩ := Result.exists_of_bind h
  obtain ⟨passed, hpassed, h⟩ := Result.exists_of_bind h
  cases h
  rw [List.mem_map]
  constructor
  · rintro ⟨d, hd, heq⟩
    obtain ⟨p, hp, w, hkept, hname⟩ := exists_kept_of_mem_passing hds hpassed hd
    rw [styleWrite_eq hp hname hkept.found] at heq
    cases heq
    exact ⟨p, hp, rfl, hkept⟩
  · rintro ⟨p, hp, rfl, hkept⟩
    obtain ⟨d, hdeclaration, hcheck, hname⟩ := hkept.exists_declaration?
    refine ⟨d, ?_, styleWrite_eq hp hname hkept.found⟩
    obtain ⟨found, hfound, hfilter⟩ := Result.exists_of_bind hds
    cases hfilter
    rw [passing_eq_filter hpassed, List.mem_filter, hcheck]
    exact ⟨List.mem_filterMap.mpr ⟨_, Result.mem_of_mapM hfound hp hdeclaration, rfl⟩, rfl⟩

/-- What is written of styles are leaves. -/
theorem areLeaves_styleWrites (h : styleWrites check styles = .ok writes) : AreLeaves writes := by
  have hkept : ∀ write ∈ writes, ∃ p ∈ properties, write.1 = p.path ∧
      p.Kept check styles write.2 := fun write hwrite => (mem_styleWrites_iff h).mp hwrite
  refine ⟨fun write hwrite => ?_, fun write hwrite => ?_, fun write hwrite other hother => ?_⟩
  · obtain ⟨p, hp, hpath, -⟩ := hkept write hwrite
    rw [hpath]
    exact properties_path_ne_nil p hp
  · obtain ⟨p, -, -, hkept⟩ := hkept write hwrite
    exact hkept.isMap
  · obtain ⟨p, hp, hpath, hv⟩ := hkept write hwrite
    obtain ⟨p', hp', hpath', hw⟩ := hkept other hother
    rw [hpath, hpath']
    rcases Value.eq_or_diverges (Value.walk?_of_at? hv.found) (Value.walk?_of_at? hw.found)
      hv.isMap hw.isMap with heq | hdiv
    · refine .inl (Prod.ext (by rw [hpath, hpath', heq]) ?_)
      have hfound := hw.found
      rw [← heq, hv.found] at hfound
      exact Option.some.inj hfound
    · exact .inr hdiv

/-- **What has been written of styles is written again**, of anything that holds the same. -/
theorem styleWrites_stable (h : styleWrites check styles = .ok writes)
    (hsame : ∀ q : Path, q.isOwnStyle = true →
      styles'.at? q = (Value.map (Entries.setAll [] writes)).at? q) :
    styleWrites check styles' = .ok writes := by
  have hleaves := areLeaves_styleWrites h
  have hfound : ∀ p ∈ properties, ∀ v, v.isMap = false →
      (styles'.at? p.path = some v ↔ p.Kept check styles v) := by
    intro p hp v hv
    rw [hsame p.path (isOwnStyle_path p hp), Value.at?_of_ne_nil (properties_path_ne_nil p hp),
      hleaves.walk?_iff hv, mem_styleWrites_iff h]
    constructor
    · rintro ⟨p', hp', hpath, hkept⟩
      rwa [properties_path_inj p hp p' hp' hpath]
    · exact fun hkept => ⟨p, hp, rfl, hkept⟩
  obtain ⟨ds, hds, h⟩ := Result.exists_of_bind h
  obtain ⟨passed, hpassed, h⟩ := Result.exists_of_bind h
  obtain ⟨found, hmapM, hfilter⟩ := Result.exists_of_bind hds
  cases h
  cases hfilter
  have hone : ∀ p ∈ properties, ∀ o, p.declaration? styles .null = .ok o →
      p.declaration? styles' .null =
        .ok (o.filter fun d => Result.passes (check d.name (.text d.value))) :=
    fun p hp o => Property.declaration?_of_kept (hfound p hp)
  have hagain : styleDeclarations styles' .null = .ok passed := by
    rw [styleDeclarations, declarationsOf, Result.mapM_eq_map hmapM hone,
      passing_eq_filter hpassed, List.filter_filterMap]
    exact congrArg Except.ok List.filterMap_map
  have hwrites : passed.map (styleWrite styles') = passed.map (styleWrite styles) := by
    refine List.map_congr_left fun d hd => ?_
    obtain ⟨p, hp, v, hkept, hname⟩ := exists_kept_of_mem_passing hds hpassed hd
    rw [styleWrite_eq hp hname hkept.found,
      styleWrite_eq hp hname ((hfound p hp v hkept.isMap).mpr hkept)]
  rw [styleWrites, hagain, ← hwrites]
  show (do let kept ← passing check passed; return kept.map (styleWrite styles')) = _
  rw [passing_passed hpassed]
  rfl

/-! ### Settings -/

/-- The items of the list at a path of the settings. -/
def listAt? (settings : Value) (path : Path) : Option (List Value) :=
  (settings.at? path).bind Value.items?

theorem listAt?_eq_some_iff {items : List Value} :
    listAt? settings q = some items ↔ ∃ mark, settings.at? q = some (.list items mark) := by
  rw [listAt?]
  cases settings.at? q with
  | none => simp
  | some v => cases v <;> simp [Value.items?]

/-- The lists of a category are one bare list, or those of the origins. -/
theorem listPaths_eq (settings : Value) (category : Category) : listPaths settings category =
    if (listAt? settings category.path).isSome then [category.path]
    else Origin.all.map fun origin => category.path ++ [origin.name] := by
  rw [listPaths, listAt?]
  cases settings.at? category.path with
  | none => rfl
  | some v => cases v <;> rfl

/-- The safe presets of the list at a path, as they are written. -/
def listWrites (check : SafetyCheck) (settings : Value) (category : Category) (path : Path) :
    Except Refusal (List (Path × Value)) :=
  match listAt? settings path with
  | some items => do
    let safe ← safeItems check category items
    return if safe.isEmpty then [] else [(path, .list safe)]
  | none => .ok []

/-- The leaves that are written of the settings of a scope. -/
def settingWrites (check : SafetyCheck) (settings : Value) :
    Except Refusal (List (Path × Value)) :=
  Result.gather (fun category =>
    Result.gather (listWrites check settings category) (listPaths settings category)) Category.all

theorem keepList_eq (kept : Entries) (path : Path) : keepList check settings category kept path =
    (listWrites check settings category path).map kept.setAll := by
  rw [keepList, listWrites, listAt?]
  cases settings.at? path with
  | none => rfl
  | some v =>
    cases v with
    | list items mark =>
      dsimp only [Option.bind_some, Value.items?]
      cases safeItems check category items with
      | error e => rfl
      | ok safe => cases safe <;> rfl
    | _ => rfl

/-- **Cleaning the settings of a scope is writing.** -/
theorem cleanSettings_eq (check : SafetyCheck) (settings : Value) :
    cleanSettings check settings = (settingWrites check settings).map (Entries.setAll []) := by
  refine Result.foldlM_eq_gather Entries.setAll_nil Entries.setAll_append ?_ []
  intro kept category _
  refine Result.foldlM_eq_gather Entries.setAll_nil Entries.setAll_append ?_ kept
  exact fun kept path _ => keepList_eq kept path

/-- A list of safe presets is what is kept of the list at a path. -/
structure KeptList (check : SafetyCheck) (settings : Value) (category : Category) (q : Path)
    (safe : List Value) : Prop where
  place : q ∈ listPaths settings category
  found : ∃ items, listAt? settings q = some items ∧ safeItems check category items = .ok safe
  ne_nil : safe ≠ []

/-- What is written of the list at a path is what is kept of it. -/
theorem mem_listWrites_iff (hq : q ∈ listPaths settings category)
    (h : listWrites check settings category q = .ok writes) {write : Path × Value} :
    write ∈ writes ↔ ∃ safe, KeptList check settings category q safe ∧ write = (q, .list safe) := by
  rw [listWrites] at h
  split at h
  next items hitems =>
    obtain ⟨safe, hsafe, h⟩ := Result.exists_of_bind h
    cases h
    constructor
    · intro hmem
      cases safe with
      | nil => cases hmem
      | cons a safe =>
        exact ⟨_, ⟨hq, ⟨items, hitems, hsafe⟩, List.cons_ne_nil _ _⟩, List.mem_singleton.mp hmem⟩
    · rintro ⟨safe', ⟨-, ⟨items', hitems', hsafe'⟩, hne⟩, rfl⟩
      cases hitems.symm.trans hitems'
      cases hsafe.symm.trans hsafe'
      rw [if_neg (by simpa using hne)]
      exact List.mem_singleton_self _
  next hnone =>
    cases h
    refine iff_of_false (List.not_mem_nil) ?_
    rintro ⟨safe, ⟨-, ⟨items, hitems, -⟩, -⟩, -⟩
    rw [hnone] at hitems
    cases hitems

/-- **The leaves that are written of settings** are the lists that are kept. -/
theorem mem_settingWrites_iff (h : settingWrites check settings = .ok writes)
    {write : Path × Value} : write ∈ writes ↔ ∃ category q safe,
      KeptList check settings category q safe ∧ write = (q, .list safe) := by
  rw [Result.mem_of_gather h]
  constructor
  · rintro ⟨category, -, cs, hcs, hmem⟩
    obtain ⟨q, hq, ws, hws, hmem⟩ := (Result.mem_of_gather hcs).mp hmem
    obtain ⟨safe, hkept, heq⟩ := (mem_listWrites_iff hq hws).mp hmem
    exact ⟨category, q, safe, hkept, heq⟩
  · rintro ⟨category, q, safe, hkept, heq⟩
    obtain ⟨cs, hcs⟩ := Result.exists_of_gather h category.mem_all
    obtain ⟨ws, hws⟩ := Result.exists_of_gather hcs hkept.place
    exact ⟨category, category.mem_all, cs, hcs, (Result.mem_of_gather hcs).mpr
      ⟨q, hkept.place, ws, hws, (mem_listWrites_iff hkept.place hws).mpr ⟨safe, hkept, heq⟩⟩⟩

/-- What is written of settings are leaves. -/
theorem areLeaves_settingWrites (h : settingWrites check settings = .ok writes) :
    AreLeaves writes := by
  refine ⟨fun write hwrite => ?_, fun write hwrite => ?_, fun write hwrite other hother => ?_⟩
  · obtain ⟨category, q, safe, hkept, rfl⟩ := (mem_settingWrites_iff h).mp hwrite
    have hplace := mem_listPlaces_of_mem_listPaths hkept.place
    exact Path.ne_nil_of_isOwn (isOwn_of_mem_listPlaces hplace)
  · obtain ⟨category, q, safe, hkept, rfl⟩ := (mem_settingWrites_iff h).mp hwrite
    rfl
  · obtain ⟨category, q, safe, hkept, rfl⟩ := (mem_settingWrites_iff h).mp hwrite
    obtain ⟨category', q', safe', hkept', rfl⟩ := (mem_settingWrites_iff h).mp hother
    obtain ⟨items, hitems, hsafe⟩ := hkept.found
    obtain ⟨items', hitems', hsafe'⟩ := hkept'.found
    obtain ⟨mark, hv⟩ := listAt?_eq_some_iff.mp hitems
    obtain ⟨mark', hw⟩ := listAt?_eq_some_iff.mp hitems'
    have hapart := Value.eq_or_diverges (Value.walk?_of_at? hv) (Value.walk?_of_at? hw) rfl rfl
    refine hapart.imp_left ?_
    rintro rfl
    cases listPlaces_inj (mem_listPlaces_of_mem_listPaths hkept.place)
      (mem_listPlaces_of_mem_listPaths hkept'.place)
    cases hitems.symm.trans hitems'
    cases hsafe.symm.trans hsafe'
    rfl

section Again

variable (hfound : ∀ q ∈ listPlaces category, ∀ items,
  listAt? settings' q = some items ↔ KeptList check settings category q items)
include hfound

/-- What is written of a list that is kept is written of it again. -/
theorem listWrites_of_kept (hq : q ∈ listPaths settings category)
    (h : listWrites check settings category q = .ok writes) :
    listWrites check settings' category q = .ok writes := by
  have hplace := mem_listPlaces_of_mem_listPaths hq
  cases hlist : listAt? settings' q with
  | none =>
    have hempty : writes = [] := by
      refine List.eq_nil_iff_forall_not_mem.mpr fun write hwrite => ?_
      obtain ⟨safe, hkept, -⟩ := (mem_listWrites_iff hq h).mp hwrite
      rw [(hfound q hplace safe).mpr hkept] at hlist
      cases hlist
    rw [listWrites, hlist, hempty]
  | some safe =>
    obtain ⟨-, ⟨items, hitems, hsafe⟩, -⟩ := (hfound q hplace safe).mp hlist
    have hagain : safeItems check category safe = .ok safe :=
      Result.keeping_kept (safeItems check category) rfl (fun _ _ => rfl) hsafe
    rw [listWrites, hitems] at h
    rw [listWrites, hlist, ← h]
    dsimp only
    rw [hsafe, hagain]

/-- Only a bare list of which nothing is kept gives way to the lists of the origins. -/
theorem listPaths_of_kept : listPaths settings' category = listPaths settings category ∨
    listPaths settings category = [category.path] ∧ listAt? settings' category.path = none := by
  rw [listPaths_eq, listPaths_eq]
  cases hlist' : listAt? settings' category.path with
  | none =>
    cases listAt? settings category.path with
    | none => exact .inl rfl
    | some items => exact .inr ⟨rfl, rfl⟩
  | some safe =>
    obtain ⟨-, ⟨items, hitems, -⟩, -⟩ := (hfound _ List.mem_cons_self safe).mp hlist'
    rw [hitems]
    exact .inl rfl

/-- What is written of the lists of a category is written of them again. -/
theorem gather_listWrites_of_kept
    (h : Result.gather (listWrites check settings category) (listPaths settings category) =
      .ok writes) :
    Result.gather (listWrites check settings' category) (listPaths settings' category) =
      .ok writes := by
  rcases listPaths_of_kept hfound with hpaths | ⟨hbare, hgone⟩
  · rw [hpaths, ← h]
    refine Result.gather_congr fun q hq => ?_
    obtain ⟨ws, hws⟩ := Result.exists_of_gather h hq
    rw [hws, listWrites_of_kept hfound hq hws]
  · have hnone : ∀ q ∈ listPlaces category, ∀ safe,
        ¬ KeptList check settings category q safe := by
      intro q hq safe hkept
      have hq' := hkept.place
      rw [hbare, List.mem_singleton] at hq'
      rw [← hfound q hq, hq', hgone] at hkept
      cases hkept
    have hwrites : writes = [] := by
      refine List.eq_nil_iff_forall_not_mem.mpr fun write hwrite => ?_
      obtain ⟨q, hq, cs, hcs, hmem⟩ := (Result.mem_of_gather h).mp hwrite
      obtain ⟨safe, hkept, -⟩ := (mem_listWrites_iff hq hcs).mp hmem
      exact hnone q (mem_listPlaces_of_mem_listPaths hq) safe hkept
    rw [hwrites]
    refine Result.gather_eq_nil fun q hq => ?_
    have hplace := mem_listPlaces_of_mem_listPaths hq
    have hlist : listAt? settings' q = none :=
      Option.eq_none_iff_forall_not_mem.mpr fun safe hsafe =>
        hnone q hplace safe ((hfound q hplace safe).mp hsafe)
    rw [listWrites, hlist]

end Again

/-- **What has been written of settings is written again**, of anything that holds the same. -/
theorem settingWrites_stable (h : settingWrites check settings = .ok writes)
    (hsame : ∀ q : Path, q.isOwn = true →
      settings'.at? q = (Value.map (Entries.setAll [] writes)).at? q) :
    settingWrites check settings' = .ok writes := by
  have hleaves := areLeaves_settingWrites h
  have hfound : ∀ category, ∀ q ∈ listPlaces category, ∀ items,
      listAt? settings' q = some items ↔ KeptList check settings category q items := by
    intro category q hq items
    have hown := isOwn_of_mem_listPlaces hq
    rw [listAt?_eq_some_iff, hsame q hown, Value.at?_of_ne_nil (Path.ne_nil_of_isOwn hown)]
    constructor
    · rintro ⟨mark, hv⟩
      obtain ⟨category', q', safe, hkept, heq⟩ :=
        (mem_settingWrites_iff h).mp ((hleaves.walk?_iff rfl).mp hv)
      cases heq
      rwa [listPlaces_inj hq (mem_listPlaces_of_mem_listPaths hkept.place)]
    · intro hkept
      have hwrite := (mem_settingWrites_iff h).mpr ⟨category, q, items, hkept, rfl⟩
      exact ⟨none, (hleaves.walk?_iff rfl).mpr hwrite⟩
  rw [← h]
  refine (Result.gather_congr fun category hcategory => ?_).symm
  obtain ⟨ws, hws⟩ := Result.exists_of_gather h hcategory
  rw [hws, gather_listWrites_of_kept (hfound category) hws]

/-! ### Cleaning of scopes -/

/-- What the sections of a tree require of the cleaning of scopes: the entries of some names are
none of its business. -/
structure IsCleaner (names : List String) (clean : Value → Except Refusal Entries) : Prop where
  /-- What remains is cleaned into itself, whatever there is under those names. -/
  stable : ∀ v remains w, clean v = .ok remains →
    (∀ name, name ∉ names → w.entryNamed? name = Entries.named? name remains) →
      clean w = .ok remains
  /-- Nothing remains under those names. -/
  apart : ∀ v remains, clean v = .ok remains → ∀ name ∈ names, Entries.named? name remains = none
  /-- Nothing remains of nothing. -/
  null : clean .null = .ok []
  /-- What remains fits where the entries did. -/
  fits : ∀ fields es remains, clean (.map es) = .ok remains → Schema.Fits fields es →
    Schema.Fits fields remains

/-- Nothing remains where there is nothing but under those names. -/
theorem IsCleaner.nothing {names : List String} {clean : Value → Except Refusal Entries}
    (h : IsCleaner names clean) (hv : ∀ name, name ∉ names → v.entryNamed? name = none) :
    clean v = .ok [] :=
  h.stable .null [] v h.null hv

/-- Writing leaves off the entries of some names is cleaning of scopes, if the same leaves are
written again and each of them takes the place of a leaf. -/
theorem isCleaner_of_writes {names : List String} {clean : Value → Except Refusal Entries}
    {writes : Value → Except Refusal (List (Path × Value))}
    (hclean : ∀ v, clean v = (writes v).map (Entries.setAll []))
    (hstable : ∀ v ws w, writes v = .ok ws → (∀ name rest, name ∉ names →
      w.at? (name :: rest) = (Value.map (Entries.setAll [] ws)).at? (name :: rest)) →
        writes w = .ok ws)
    (hnull : writes .null = .ok [])
    (hleaf : ∀ v ws, writes v = .ok ws → ∀ write ∈ ws,
      (∃ name rest, write.1 = name :: rest ∧ name ∉ names) ∧
        ∃ old, v.walk? write.1 = some old ∧ old.isMap = false) :
    IsCleaner names clean := by
  refine ⟨fun v remains w h hsame => ?_, fun v remains h name hname => ?_, ?_,
    fun fields es remains h hfits => ?_⟩
  · rw [hclean] at h ⊢
    obtain ⟨ws, hws, rfl⟩ := Result.exists_of_map h
    rw [hstable v ws w hws fun name rest hname => ?_]
    · rfl
    · rw [Value.at?_cons, Value.at?_cons, Value.walk?_cons, Value.walk?_cons_map,
        hsame name hname]
  · rw [hclean] at h
    obtain ⟨ws, hws, rfl⟩ := Result.exists_of_map h
    have hdiverges : ∀ write ∈ ws, Diverges write.1 [name] := by
      intro write hwrite
      obtain ⟨⟨other, rest, hpath, hother⟩, -⟩ := hleaf v ws hws write hwrite
      rw [hpath, Path.diverges_cons_cons]
      exact .inl fun heq => hother (heq ▸ hname)
    have hwalk := Entries.walk?_setAll_of_diverges hdiverges []
    rwa [Value.walk?_singleton_map] at hwalk
  · rw [hclean, hnull]
    rfl
  · rw [hclean] at h
    obtain ⟨ws, hws, rfl⟩ := Result.exists_of_map h
    refine Schema.Fits.setAll (Schema.fits_nil fields) fun write hwrite => ?_
    obtain ⟨⟨name, rest, hpath, -⟩, old, hold, hmap⟩ := hleaf _ ws hws write hwrite
    obtain ⟨s, hs, haccepts⟩ := hfits.walk? hold
    refine ⟨s, hs, ?_⟩
    cases s with
    | any => exact Schema.accepts_any _
    | fields sub =>
      have hfalse := Schema.isMap_of_fitsSection (haccepts (by simp [hpath]))
      rw [hmap] at hfalse
      cases hfalse

/-- The styles of a scope are cleaned without its elements and blocks. -/
theorem isCleaner_cleanStyles (check : SafetyCheck) :
    IsCleaner ["elements", "blocks"] (cleanStyles check) := by
  refine isCleaner_of_writes (cleanStyles_eq check) (fun v ws w h hsame => ?_) rfl
    fun v ws h write hwrite => ?_
  · refine styleWrites_stable h fun q hq => ?_
    obtain ⟨name, rest, rfl, hname⟩ := Path.isOwnStyle_iff.mp hq
    exact hsame name rest hname
  · obtain ⟨p, hp, hpath, hkept⟩ := (mem_styleWrites_iff h).mp hwrite
    rw [hpath]
    exact ⟨Path.isOwnStyle_iff.mp (isOwnStyle_path p hp), write.2,
      Value.walk?_of_at? hkept.found, hkept.isMap⟩

/-- The settings of a scope are cleaned without its blocks. -/
theorem isCleaner_cleanSettings (check : SafetyCheck) :
    IsCleaner ["blocks"] (cleanSettings check) := by
  refine isCleaner_of_writes (cleanSettings_eq check) (fun v ws w h hsame => ?_) rfl
    fun v ws h write hwrite => ?_
  · refine settingWrites_stable h fun q hq => ?_
    obtain ⟨name, rest, rfl, hname⟩ := Path.exists_of_isOwn hq
    exact hsame name rest (by simpa using hname)
  · obtain ⟨category, q, safe, hkept, rfl⟩ := (mem_settingWrites_iff h).mp hwrite
    obtain ⟨items, hitems, -⟩ := hkept.found
    obtain ⟨mark, hv⟩ := listAt?_eq_some_iff.mp hitems
    refine ⟨?_, _, Value.walk?_of_at? hv, rfl⟩
    obtain ⟨name, rest, rfl, hname⟩ :=
      Path.exists_of_isOwn (isOwn_of_mem_listPlaces (mem_listPlaces_of_mem_listPaths hkept.place))
    exact ⟨name, rest, rfl, by simpa using hname⟩

end Theme

end ThemeSheet
