import ThemeSheet.Proofs.Style.Declarations
import ThemeSheet.Proofs.Style.Places
import ThemeSheet.Proofs.Theme.Compiled
import ThemeSheet.Proofs.Tree.Built
import ThemeSheet.Theme.Cleaning

/-!
# What cleaning leaves

A cleaned tree is built by writing: into nothing, the values of one scope after the other, and only
those that have passed the check. So all that can be reached in its styles and its settings is a
value that has passed, at a path of its kind, or a mapping on the way to where such values stand.

## Main definitions

* `Theme.IsCleanStyle`, `Theme.IsCleanSetting`, of what cleaning leaves in the styles and in the
  settings of one scope;
* `Theme.OnPlace`, `Theme.IsLeft`, of what is left in all of them;
* `Theme.IsCleaned`, of a tree in which nothing else is left.

## Main results

* `Theme.exists_keepValue_eq`: what is written for a declaration;
* `Theme.built_cleanStyles`, `Theme.built_cleanSettings`: what is left in one scope;
* `Theme.exists_of_clean`: what is left of a tree.
-/

namespace ThemeSheet.Theme

open Entries (Built)
open Value (walk?)

variable {check : SafetyCheck} {category : Category} {styles settings tree : Value}
  {kept remains : Entries}

/-! ### Styles of a scope -/

/-- What passes is one of the declarations, and has passed. -/
theorem mem_of_passing {ds passed : List Declaration} (h : passing check ds = .ok passed)
    {d : Declaration} (hd : d ∈ passed) : d ∈ ds ∧ check d.name (.text d.value) = .ok true :=
  Result.mem_of_keeping (passing check) rfl (fun _ _ => rfl) h hd

/-- The path of a property is found by its name. -/
theorem pathOf?_name : ∀ p ∈ properties, pathOf? p.name = some p.path := by
  decide +kernel

/-- What cleaning leaves in the styles of a scope. -/
def IsCleanStyle (check : SafetyCheck) (q : Path) (v : Value) : Prop :=
  ∃ p ∈ properties, (v.isMap = true ∧ q <+: p.path) ∨ (q = p.path ∧ p.Passes check v)

/-- The value of a declaration is written where it was read. -/
theorem keepValue_eq {p : Property} {d : Declaration} {v : Value} (hp : p ∈ properties)
    (hname : d.name = p.name) (hv : styles.at? p.path = some v) :
    keepValue styles kept d = Value.setEntries p.path v kept := by
  rw [keepValue, hname, pathOf?_name p hp]
  dsimp only
  rw [Value.getD, hv, Option.getD_some]

/-- **What is written for a declaration** is no mapping and no list. -/
theorem exists_keepValue_eq {ds : List Declaration}
    (h : styleDeclarations styles settings = .ok ds) {d : Declaration} (hd : d ∈ ds) :
    ∃ path v, v.isMap = false ∧ v.items? = none ∧ styles.at? path = some v ∧
      ∀ kept, keepValue styles kept d = Value.setEntries path v kept := by
  obtain ⟨p, hp, v, hv, -, hmissing, hname, -⟩ := (mem_styleDeclarations_iff h).mp hd
  refine ⟨p.path, v, ?_, ?_, hv, fun kept => keepValue_eq hp hname hv⟩
  · cases v with
    | map es mark => cases hmissing
    | _ => rfl
  · cases v with
    | list items mark => cases hmissing
    | _ => rfl

/-- **What is left of the styles of a scope** are values whose declarations pass. -/
theorem built_cleanStyles (htree : styles.IsTree) (h : cleanStyles check styles = .ok remains) :
    Built (IsCleanStyle check) remains := by
  obtain ⟨ds, hds, h⟩ := Result.exists_of_bind h
  obtain ⟨passed, hpassed, h⟩ := Result.exists_of_bind h
  cases h
  refine List.foldlRecOn (motive := Built (IsCleanStyle check)) passed _ (Entries.built_nil _) ?_
  intro kept hkept d hd
  obtain ⟨hmem, hcheck⟩ := mem_of_passing hpassed hd
  obtain ⟨p, hp, v, hv, hmap, hname, htext⟩ := exists_of_mem_styleDeclarations hds hmem
  have hne := properties_path_ne_nil p hp
  rw [keepValue_eq hp hname hv]
  rw [Value.at?_of_ne_nil hne] at hv
  refine hkept.setEntries hne (htree.walk? hv) (fun q w hq hw => ⟨p, hp, .inl ⟨hw, hq⟩⟩) ?_
  intro r w hw
  cases r with
  | nil =>
    cases hw
    exact ⟨p, hp, .inr ⟨List.append_nil _, d.value, htext, hname ▸ hcheck⟩⟩
  | cons name rest =>
    obtain ⟨es, mark, rfl⟩ := Value.exists_map_of_walk? hw
    cases hmap

/-! ### Settings of a scope -/

/-- What is left of a list is one of its items, and is safe. -/
theorem mem_of_safeItems {items safe : List Value} (h : safeItems check category items = .ok safe)
    {item : Value} (hitem : item ∈ safe) :
    item ∈ items ∧ isSafeItem check category item = .ok true :=
  Result.mem_of_keeping (safeItems check category) rfl (fun _ _ => rfl) h hitem

/-- The paths at which a category may have lists: bare, or keyed by an origin. -/
def listPlaces (category : Category) : List Path :=
  category.path :: Origin.all.map fun origin => category.path ++ [origin.name]

/-- What cleaning leaves in the settings of a scope. -/
def IsCleanSetting (check : SafetyCheck) (q : Path) (v : Value) : Prop :=
  ∃ category, ∃ p ∈ listPlaces category, (v.isMap = true ∧ q <+: p) ∨
    (q = p ∧ ∃ items mark, v = .list items mark ∧
      ∀ item ∈ items, isSafeItem check category item = .ok true)

theorem mem_listPlaces_of_mem_listPaths {q : Path} (h : q ∈ listPaths settings category) :
    q ∈ listPlaces category := by
  rw [listPaths] at h
  split at h
  · rw [List.mem_singleton.mp h]
    exact List.mem_cons_self
  · exact List.mem_cons_of_mem _ h

theorem isOwn_of_mem_listPlaces {q : Path} (h : q ∈ listPlaces category) : q.isOwn = true := by
  rcases List.mem_cons.mp h with rfl | h
  · exact category.isOwn_path
  · obtain ⟨origin, -, rfl⟩ := List.mem_map.mp h
    exact Path.isOwn_append category.isOwn_path _

/-- Writing the safe presets of a list leaves nothing but safe presets. -/
theorem built_keepList (htree : settings.IsTree) {path : Path} (hpath : path ∈ listPlaces category)
    (hkept : Built (IsCleanSetting check) kept)
    (h : keepList check settings category kept path = .ok remains) :
    Built (IsCleanSetting check) remains := by
  have hne := Path.ne_nil_of_isOwn (isOwn_of_mem_listPlaces hpath)
  rw [keepList] at h
  split at h
  next items mark hitems =>
    obtain ⟨safe, hsafe, h⟩ := Result.exists_of_bind h
    cases h
    split
    · exact hkept
    rw [Value.at?_of_ne_nil hne] at hitems
    have hitemTrees := (Value.isTree_list.mp (htree.walk? hitems)).2
    have hlist : Value.IsTree (.list safe) := Value.isTree_list.mpr
      ⟨rfl, fun item hitem => hitemTrees item (mem_of_safeItems hsafe hitem).1⟩
    refine hkept.setEntries hne hlist
      (fun q w hq hw => ⟨category, path, hpath, .inl ⟨hw, hq⟩⟩) fun r w hw => ?_
    cases r with
    | nil =>
      cases hw
      exact ⟨category, path, hpath, .inr ⟨List.append_nil _, safe, none, rfl,
        fun item hitem => (mem_of_safeItems hsafe hitem).2⟩⟩
    | cons name rest =>
      obtain ⟨es, mark, heq⟩ := Value.exists_map_of_walk? hw
      cases heq
  next =>
    cases h
    exact hkept

/-- **What is left of the settings of a scope** are lists of safe presets. -/
theorem built_cleanSettings (htree : settings.IsTree)
    (h : cleanSettings check settings = .ok remains) : Built (IsCleanSetting check) remains := by
  refine Result.foldlM_induction h (Entries.built_nil _) fun kept category kept' _ hkept h => ?_
  refine Result.foldlM_induction h hkept fun kept path kept' hpath hkept h => ?_
  exact built_keepList htree (mem_listPlaces_of_mem_listPaths hpath) hkept h

/-! ### All scopes -/

/-- A mapping on the way to a place, or what is fine in one. -/
def OnPlace (isPlace : Path → Prop) (fine : Path → Value → Prop) (q : Path) (v : Value) : Prop :=
  ∃ place, isPlace place ∧
    ((v.isMap = true ∧ q <+: place) ∨ ∃ r, r ≠ [] ∧ q = place ++ r ∧ fine r v)

/-- Writing what remains of a scope keeps a condition that holds of it. -/
theorem built_keepScope {clean : Value → Except Refusal Entries} {isPlace : Path → Prop}
    {fine fine' : Path → Value → Prop} {scope : Scope} (htree : tree.IsTree)
    (hclean : ∀ part remains, part.IsTree → clean part = .ok remains → Built fine remains)
    (hfine : ∀ q v, OnPlace isPlace fine q v → fine' q v) (hscope : isPlace scope.path)
    (hne : scope.path ≠ []) (hkept : Built fine' kept)
    (h : keepScope clean tree kept scope = .ok remains) : Built fine' remains := by
  unfold keepScope at h
  dsimp only at h
  split at h
  next =>
    obtain ⟨left, hleft, h⟩ := Result.exists_of_bind h
    cases h
    split
    · exact hkept
    have hpart : (tree.getD scope.path .emptyMap).IsTree := by
      rw [Value.getD, Value.at?_of_ne_nil hne]
      cases hv : walk? scope.path tree with
      | none => exact Value.isTree_map.mpr ⟨rfl, Entries.areTrees_nil⟩
      | some v => exact htree.walk? hv
    have hbuilt := hclean _ left hpart hleft
    refine hkept.setEntries hne (Value.isTree_map.mpr ⟨rfl, hbuilt.trees⟩)
      (fun q w hq hw => hfine q w ⟨_, hscope, .inl ⟨hw, hq⟩⟩) fun r w hw => ?_
    by_cases hr : r = []
    · subst hr
      cases hw
      exact hfine _ _ ⟨_, hscope, .inl ⟨rfl, by simp⟩⟩
    · exact hfine _ _ ⟨_, hscope, .inr ⟨r, hr, rfl, hbuilt.fine r w hr hw⟩⟩
  next =>
    cases h
    exact hkept

/-! ### Sections of the tree -/

section Sections

variable {es : Entries} {name other : String}

/-- A section is replaced by what remains of it, if that counts as true. -/
theorem named?_replaceSection (hd : es.Distinct) (kept : Entries) (name other : String) :
    Entries.named? other (replaceSection kept es name) =
      if other = name then (Entries.named? name kept).filter Value.truthy
      else Entries.named? other es := by
  rw [replaceSection]
  cases hv : Entries.named? name kept with
  | none =>
    dsimp only
    rw [Entries.named?_erase hd]
    rfl
  | some v =>
    dsimp only
    by_cases ht : v.truthy = true
    · rw [if_pos ht, Entries.named?_insert, Option.filter_some_pos ht]
    · rw [if_neg ht, Entries.named?_erase hd, Option.filter_some_neg (by simpa using ht)]

theorem areTrees_replaceSection (hkept : kept.AreTrees) (hes : es.AreTrees) (name : String) :
    (replaceSection kept es name).AreTrees := by
  rw [replaceSection]
  split
  next v hv =>
    split
    · exact hes.insert _ (hkept.named? hv)
    · exact hes.erase _
  next => exact hes.erase _

end Sections

/-- Whether a path leads into the styles or into the settings. -/
def InSections (q : Path) : Prop := q.head? = some "styles" ∨ q.head? = some "settings"

/-- What is reached in the two sections of a tree that have been replaced remains of them. -/
theorem walk?_replaceSections {es : Entries} (hkept : kept.AreTrees) (hes : es.AreTrees) {q : Path}
    (hq : InSections q) {v : Value}
    (hv : walk? q (.map (["styles", "settings"].foldl (replaceSection kept) es)) = some v) :
    walk? q (.map kept) = some v := by
  cases q with
  | nil => rcases hq with hq | hq <;> cases hq
  | cons name rest =>
    have hname : name = "styles" ∨ name = "settings" := hq.imp Option.some.inj Option.some.inj
    have hfirst := areTrees_replaceSection hkept hes "styles"
    rw [Value.walk?_cons_map, Option.bind_eq_some_iff] at hv ⊢
    obtain ⟨w, hw, hv⟩ := hv
    refine ⟨w, ?_, hv⟩
    rw [List.foldl_cons, List.foldl_cons, List.foldl_nil, named?_replaceSection hfirst.distinct,
      named?_replaceSection hes.distinct] at hw
    rcases hname with rfl | rfl
    · rw [if_neg (by decide), if_pos rfl, Option.filter_eq_some_iff] at hw
      exact hw.1
    · rw [if_pos rfl, Option.filter_eq_some_iff] at hw
      exact hw.1

/-! ### Where things are left -/

section Left

variable {blocks : List String} {isPlace : Path → Prop} {fine : Path → Value → Prop}
  {place q : Path} {v : Value}

/-- What is left in all scopes of styles and of settings. -/
def IsLeft (check : SafetyCheck) (blocks : List String) (q : Path) (v : Value) : Prop :=
  OnPlace StylePlace (IsCleanStyle check) q v ∨
    OnPlace (SettingPlace blocks) (IsCleanSetting check) q v

/-- What is left stands where its place begins. -/
theorem OnPlace.head? {name : String} (hhead : ∀ place, isPlace place → place.head? = some name)
    (hq : q ≠ []) (h : OnPlace isPlace fine q v) : q.head? = some name := by
  obtain ⟨place, hplace, ⟨-, after, hafter⟩ | ⟨r, -, rfl, -⟩⟩ := h
  · have hfirst := hhead place hplace
    rw [← hafter] at hfirst
    cases q with
    | nil => exact absurd rfl hq
    | cons a q => exact hfirst
  · have hfirst := hhead place hplace
    cases place with
    | nil => cases hfirst
    | cons a place => exact hfirst

/-- What is left of the settings is not in the styles. -/
theorem IsLeft.style (h : IsLeft check blocks (place ++ q) v) (hplace : StylePlace place) :
    OnPlace StylePlace (IsCleanStyle check) (place ++ q) v := by
  refine h.resolve_right fun hon => ?_
  have hhead := hon.head? (fun _ h => by cases h <;> rfl) (by simp [hplace.ne_nil])
  rw [hplace.head?_append] at hhead
  exact absurd (Option.some.inj hhead) (by decide)

/-- What is left of the styles is not in the settings. -/
theorem IsLeft.setting (h : IsLeft check blocks (place ++ q) v)
    (hplace : SettingPlace blocks place) :
    OnPlace (SettingPlace blocks) (IsCleanSetting check) (place ++ q) v := by
  refine h.resolve_left fun hon => ?_
  have hhead := hon.head? (fun _ h => by cases h <;> rfl) (by simp [hplace.ne_nil])
  rw [hplace.head?_append] at hhead
  exact absurd (Option.some.inj hhead) (by decide)

theorem isOwnStyle_path : ∀ p ∈ properties, p.path.isOwnStyle = true := by
  decide

/-- What is left at the path of a property passes for that property. -/
theorem OnPlace.passes (hplace : StylePlace place) {p : Property} (hp : p ∈ properties)
    (hmap : v.isMap = false) (h : OnPlace StylePlace (IsCleanStyle check) (place ++ p.path) v) :
    p.Passes check v := by
  obtain ⟨place', hplace', ⟨hmap', -⟩ | ⟨r, -, heq, p', hp', ⟨hmap', -⟩ | ⟨rfl, hpass⟩⟩⟩ := h
  · rw [hmap] at hmap'
    cases hmap'
  · rw [hmap] at hmap'
    cases hmap'
  · obtain ⟨-, hpath⟩ := hplace.append_inj hplace' (isOwnStyle_path p hp)
      (isOwnStyle_path p' hp') heq
    cases properties_path_inj p hp p' hp' hpath
    exact hpass

/-- A path of lists is one of a single category. -/
theorem listPlaces_inj {category' : Category} (h : q ∈ listPlaces category)
    (h' : q ∈ listPlaces category') : category = category' := by
  have hdisjoint : ∀ q ∈ listPlaces category, q ∈ listPlaces category' → category = category' := by
    cases category <;> cases category' <;> decide
  exact hdisjoint q h h'

/-- The items of a list that is left are safe presets of its category. -/
theorem OnPlace.isSafeItem (hplace : SettingPlace blocks place) (hq : q ∈ listPlaces category)
    {items : List Value} {mark : Option Mark}
    (h : OnPlace (SettingPlace blocks) (IsCleanSetting check) (place ++ q) (.list items mark)) :
    ∀ item ∈ items, isSafeItem check category item = .ok true := by
  obtain ⟨place', hplace', ⟨hmap, -⟩ | ⟨r, -, heq, category', p, hp, ⟨hmap, -⟩ |
    ⟨rfl, safe, mark', hsafe, hall⟩⟩⟩ := h
  · cases hmap
  · cases hmap
  · cases hsafe
    obtain ⟨-, rfl⟩ := hplace.append_inj hplace' (isOwn_of_mem_listPlaces hq)
      (isOwn_of_mem_listPlaces hp) heq
    cases listPlaces_inj hq hp
    exact hall

/-- No custom settings are left. -/
theorem not_onPlace_custom (hplace : SettingPlace blocks place) :
    ¬ OnPlace (SettingPlace blocks) (IsCleanSetting check) (place ++ ["custom"]) v := by
  rintro ⟨place', hplace', ⟨-, hstart⟩ | ⟨r, hne, heq, category, p, hp, hr⟩⟩
  · cases hplace <;> cases hplace' <;> simp at hstart
  · have hstart : r <+: p := by
      rcases hr with ⟨-, hstart⟩ | ⟨rfl, -⟩
      · exact hstart
      · exact List.prefix_rfl
    have hown := Path.isOwn_of_prefix hstart hne (isOwn_of_mem_listPlaces hp)
    obtain ⟨-, rfl⟩ := hplace.append_inj hplace' (by decide) hown heq
    have hnone : ∀ p ∈ listPlaces category, ¬ ["custom"] <+: p := by
      cases category <;> decide
    exact hnone p hp hstart

end Left

/-! ### Cleaned trees -/

/-- The entries of a tree in which nothing is left but what passes a check, for the names of
blocks. -/
structure IsCleaned (check : SafetyCheck) (blocks : List String) (es : Entries) : Prop where
  trees : es.AreTrees
  /-- Every value of the styles passes for the property that reads it. -/
  styles : ∀ place p v, StylePlace place → p ∈ properties →
    walk? (place ++ Property.path p) (.map es) = some v → v.isMap = false → p.Passes check v
  /-- Every item of a list of presets is safe. -/
  presets : ∀ place category q items mark, SettingPlace blocks place → q ∈ listPlaces category →
    walk? (place ++ q) (.map es) = some (.list items mark) →
      ∀ item ∈ items, isSafeItem check category item = .ok true
  /-- There are no custom settings. -/
  custom : ∀ place, SettingPlace blocks place → walk? (place ++ ["custom"]) (.map es) = none

/-- What remains of the scopes of a tree. -/
theorem built_remains {table : BlockTable} {es styles : Entries}
    (hfits : Schema.Fits (Schema.wholeTheme table.names elementNames) es) (hes : es.AreTrees)
    (hstyles : (styleScopes table (.map es)).foldlM (keepScope (cleanStyles check) (.map es)) [] =
      .ok styles)
    (hkept : (settingScopes [] (.map es)).foldlM (keepScope (cleanSettings check) (.map es))
      styles = .ok kept) :
    Built (IsLeft check table.names) kept := by
  have htree : Value.IsTree (.map es) := Value.isTree_map.mpr ⟨rfl, hes⟩
  have hbuilt : Built (OnPlace StylePlace (IsCleanStyle check)) styles := by
    refine Result.foldlM_induction hstyles (Entries.built_nil _) ?_
    intro kept scope kept' hscope hkept h
    have hplace := stylePlace_of_mem_styleScopes hscope
    exact built_keepScope htree (fun _ _ => built_cleanStyles) (fun _ _ h => h) hplace
      hplace.ne_nil hkept h
  refine Result.foldlM_induction hkept (hbuilt.mono fun _ _ => .inl) ?_
  intro kept scope kept' hscope hkept h
  have hplace := ((mem_scopePaths_iff hfits []).mp (List.mem_map_of_mem hscope)).1
  exact built_keepScope htree (fun _ _ => built_cleanSettings) (fun _ _ => .inr) hplace
    hplace.ne_nil hkept h

/-- **What cleaning leaves of a tree.** -/
theorem exists_of_clean {table : BlockTable} {raw cleaned : Value} (hraw : raw.IsTree)
    (h : clean table check raw = .ok cleaned) :
    ∃ es, cleaned = .map es ∧ IsCleaned check table.names es := by
  have hfits := fits_sanitize table.names hraw
  have htrees := areTrees_sanitize table.names hraw
  obtain ⟨styles, hstyles, h⟩ := Result.exists_of_bind h
  obtain ⟨kept, hkept, h⟩ := Result.exists_of_bind h
  cases h
  have hbuilt := built_remains hfits htrees hstyles hkept
  have hleft : ∀ q v, InSections q → walk? q (.map (["styles", "settings"].foldl
      (replaceSection kept) (sanitize table.names elementNames (Migration.run raw)))) = some v →
      IsLeft check table.names q v := by
    intro q v hq hv
    have hne : q ≠ [] := by
      rintro rfl
      rcases hq with hq | hq <;> cases hq
    exact hbuilt.fine q v hne (walk?_replaceSections hbuilt.trees htrees hq hv)
  have hfirst := areTrees_replaceSection hbuilt.trees htrees "styles"
  refine ⟨_, rfl, areTrees_replaceSection hbuilt.trees hfirst "settings", ?_, ?_, ?_⟩
  · intro place p v hplace hp hv hmap
    have hon := hleft _ v (.inl (hplace.head?_append p.path)) hv
    exact (hon.style hplace).passes hplace hp hmap
  · intro place category q items mark hplace hq hv
    have hon := hleft _ _ (.inr (hplace.head?_append q)) hv
    exact (hon.setting hplace).isSafeItem hplace hq
  · intro place hplace
    cases hv : walk? (place ++ ["custom"]) _ with
    | none => rfl
    | some v =>
      have hon := hleft _ v (.inr (hplace.head?_append ["custom"])) hv
      exact absurd (hon.setting hplace) (not_onPlace_custom hplace)

end ThemeSheet.Theme
