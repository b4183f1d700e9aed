import ThemeSheet.Proofs.Schema.Conformance
import ThemeSheet.Scope
import ThemeSheet.Preset.Category

/-!
# Places in a theme tree

Settings stand at the root and in every block; these are the places that the passes of a theme
visit. In a tree that fits the schema they are found in two ways, which agree: by listing the scopes
of the tree, and by asking whether the path of a place leads anywhere. The first is what the program
does, the second is what proofs use.

Migration and the expansion of the appearance tools have one shape: a change of the settings of
every place. `Entries.onScopes` is that shape.

## Main definitions

* `SettingPlace`, the paths at which settings may stand;
* `Path.isOwn`, of a path that stays in the settings of its place;
* `Entries.onScopes`, a change of the settings of every place.

## Main results

* `part?_settingPlace`, `staysInside_settingPlace`: the schema at a place;
* `SettingPlace.diverges`, `append_inj`: own paths of places diverge, and tell the place;
* `mem_scopePaths_iff`: the scopes of a tree that fits are the places that lead anywhere;
* `Entries.walk?_onScopes`: what a change of every place does at one of them;
* `Entries.onScopes_eq_self`, `Schema.Fits.onScopes`: changes of nothing, and changes that keep a
  tree fitting.
-/

namespace ThemeSheet

open ThemeSheet.Path (Diverges)
open Value (walk? walkKeys?)

/-- The paths at which settings may stand, for the names of blocks. -/
inductive SettingPlace (blocks : List String) : Path → Prop
  | root : SettingPlace blocks ["settings"]
  | block {name : String} (h : name ∈ blocks) : SettingPlace blocks ["settings", "blocks", name]

/-- The ways by keys to the settings of the root and of every block, whatever key it has. -/
inductive SettingKeys : List Key → Prop
  | root : SettingKeys [.text "settings"]
  | block (key : Key) : SettingKeys [.text "settings", .text "blocks", key]

theorem SettingPlace.keys {blocks : List String} {place : Path} (h : SettingPlace blocks place) :
    SettingKeys place.keys := by
  cases h with
  | root => exact .root
  | block => exact .block _

namespace Schema

variable {blocks elements names : List String} {place q : Path} {s t : Schema}

/-! ### Fields of the schema -/

theorem lookup_map_self (names : List String) (s : Schema) (name : String) :
    (names.map fun n => (n, s)).lookup name = if name ∈ names then some s else none := by
  induction names with
  | nil => rfl
  | cons n names ih =>
    rw [List.map_cons, List.lookup_cons, ih]
    by_cases h : name = n
    · simp [h]
    · simp [h, beq_eq_false_iff_ne.mpr h]

/-- The schema of a name in a section of names. -/
theorem field?_forNames {fields : List (String × Schema)} (h : forNames names s = .fields fields)
    (name : String) : field? fields name = if name ∈ names then some s else none := by
  cases h
  simp only [field?, lookup_map_self, List.mem_eraseDups]

theorem part?_forNames (names : List String) (s : Schema) (name : String) (rest : Path) :
    part? (name :: rest) (forNames names s) = if name ∈ names then part? rest s else none := by
  rw [forNames, part?_cons_fields, field?_forNames rfl]
  split <;> rfl

theorem staysInside_forNames (names : List String) (s : Schema) (name : String) (rest : Path)
    (h : staysInside rest s = true) : staysInside (name :: rest) (forNames names s) = true := by
  rw [forNames, staysInside, field?_forNames rfl]
  split
  · exact h
  · rfl

/-- A field of the settings of a block is one of the settings of the root. -/
theorem field?_settingsSection {name : String} (h : field? settings name = some s) :
    field? (settingsSection blocks) name = some s := by
  rw [field?, settingsSection, List.lookup_append]
  rw [field?] at h
  rw [h]
  rfl

theorem part?_settingsSection (hne : q ≠ []) (h : part? q (.fields settings) = some t) :
    part? q (.fields (settingsSection blocks)) = some t := by
  cases q with
  | nil => exact absurd rfl hne
  | cons name rest =>
    rw [part?_cons_fields, Option.bind_eq_some_iff] at h
    obtain ⟨s, hs, h⟩ := h
    rw [part?_cons_fields, field?_settingsSection hs]
    exact h

/-- **The schema at a place** is that of the settings. -/
theorem part?_settingPlace (h : SettingPlace blocks place) (hne : q ≠ [])
    (hq : part? q (.fields settings) = some t) :
    part? (place ++ q) (.fields (wholeTheme blocks elements)) = some t := by
  cases h with
  | root => exact part?_settingsSection hne hq
  | @block name hname =>
    have hpart : part? (name :: q) (forNames blocks (.fields settings)) = some t := by
      rw [part?_forNames, if_pos hname, hq]
    exact hpart

theorem staysInside_settingPlace (h : SettingPlace blocks place) (hne : q ≠ [])
    (hq : part? q (.fields settings) = some t)
    (hin : staysInside q (.fields settings) = true) :
    staysInside (place ++ q) (.fields (wholeTheme blocks elements)) = true := by
  cases h with
  | root =>
    cases q with
    | nil => exact absurd rfl hne
    | cons name rest =>
      rw [part?_cons_fields, Option.bind_eq_some_iff] at hq
      obtain ⟨s, hs, -⟩ := hq
      rw [staysInside, hs] at hin
      have hroot : staysInside (name :: rest) (.fields (settingsSection blocks)) = true := by
        rw [staysInside, field?_settingsSection hs]
        exact hin
      exact hroot
  | @block name hname => exact staysInside_forNames blocks _ name q hin

@[simp] theorem part?_categoryPath (category : Category) :
    part? category.path (.fields settings) = some .any := by
  cases category <;> rfl

@[simp] theorem staysInside_categoryPath (category : Category) :
    staysInside category.path (.fields settings) = true := by
  cases category <;> rfl

end Schema

theorem Category.path_ne_nil (category : Category) : category.path ≠ [] := by
  cases category <;> exact List.cons_ne_nil _ _

/-- Any value may stand where a collection does. -/
theorem Schema.part?_collection {blocks : List String} {place : Path}
    (h : SettingPlace blocks place) (elements : List String) (category : Category) :
    part? (place ++ category.path) (.fields (wholeTheme blocks elements)) = some .any :=
  part?_settingPlace h category.path_ne_nil (part?_categoryPath category)

theorem Schema.staysInside_collection {blocks : List String} {place : Path}
    (h : SettingPlace blocks place) (elements : List String) (category : Category) :
    staysInside (place ++ category.path) (.fields (wholeTheme blocks elements)) = true :=
  staysInside_settingPlace h category.path_ne_nil (part?_categoryPath category)
    (staysInside_categoryPath category)

theorem SettingPlace.ne_nil {blocks : List String} {place : Path}
    (h : SettingPlace blocks place) : place ≠ [] := by
  cases h <;> exact List.cons_ne_nil _ _

/-! ### Own paths -/

/-- Whether a path below a place stays in the settings of that place. -/
def Path.isOwn : Path → Bool
  | [] => false
  | name :: _ => decide (name ≠ "blocks")

@[simp] theorem Category.isOwn_path (category : Category) : Path.isOwn category.path = true := by
  cases category <;> rfl

theorem Path.exists_of_isOwn {p : Path} (h : p.isOwn = true) :
    ∃ name rest, p = name :: rest ∧ name ≠ "blocks" := by
  cases p with
  | nil => cases h
  | cons name rest => exact ⟨name, rest, rfl, of_decide_eq_true h⟩

theorem Path.isOwn_append {p : Path} (h : p.isOwn = true) (q : Path) :
    Path.isOwn (p ++ q) = true := by
  cases p with
  | nil => cases h
  | cons name rest => exact h

theorem Path.ne_nil_of_isOwn {p : Path} (h : p.isOwn = true) : p ≠ [] := by
  rintro rfl
  cases h

/-- A beginning of an own path is an own path. -/
theorem Path.isOwn_of_prefix {p q : Path} (h : q <+: p) (hq : q ≠ []) (hp : p.isOwn = true) :
    Path.isOwn q = true := by
  obtain ⟨rest, rfl⟩ := h
  cases q with
  | nil => exact absurd rfl hq
  | cons name q => exact hp

/-- **Own paths of places diverge**, unless they are paths of one place and do not. -/
theorem SettingPlace.diverges {blocks : List String} {place place' q q' : Path}
    (h : SettingPlace blocks place) (h' : SettingPlace blocks place') (hq : q.isOwn = true)
    (hq' : q'.isOwn = true) (hne : place = place' → Diverges q q') :
    Diverges (place ++ q) (place' ++ q') := by
  by_cases heq : place = place'
  · subst heq
    exact (Path.diverges_append_left place).mpr (hne rfl)
  · match q, q' with
    | a :: q, b :: q' =>
      simp only [Path.isOwn, decide_eq_true_eq] at hq hq'
      cases h with
      | root =>
        cases h' with
        | root => exact absurd rfl heq
        | block hmem => simp [hq]
      | block hmem =>
        cases h' with
        | root => simp [Ne.symm hq']
        | block hmem' =>
          have hname := fun h => heq (congrArg (fun name => ["settings", "blocks", name]) h)
          simp only [List.cons_append, List.nil_append, Path.diverges_cons_cons, ne_eq,
            not_true_eq_false, false_or]
          exact .inl hname

/-- **A place is told from its own paths.** -/
theorem SettingPlace.append_inj {blocks : List String} {place place' q q' : Path}
    (h : SettingPlace blocks place) (h' : SettingPlace blocks place') (hq : q.isOwn = true)
    (hq' : q'.isOwn = true) (heq : place ++ q = place' ++ q') : place = place' ∧ q = q' := by
  by_cases hplace : place = place'
  · subst hplace
    exact ⟨rfl, List.append_cancel_left heq⟩
  · have hdiv := h.diverges h' hq hq' (fun hsame => absurd hsame hplace)
    rw [heq] at hdiv
    exact absurd List.prefix_rfl hdiv.1

/-! ### Scopes of a tree -/

section Scopes

variable {blocks elements : List String} {es : Entries} {place : Path}

/-- The names of the entries of a mapping are those under which something is found. -/
theorem mem_entryNames_iff {es : Entries} {mark : Option Mark} {name : String}
    (hd : Entries.Distinct es) :
    name ∈ Scope.entryNames (.map es mark) ↔ (Entries.named? name es).isSome = true := by
  rw [Scope.entryNames, List.mem_filterMap, Option.isSome_iff_exists]
  constructor
  · rintro ⟨⟨k, v⟩, he, hk⟩
    cases k with
    | text n => cases hk; exact ⟨v, Entries.get?_of_mem hd he⟩
    | _ => cases hk
  · rintro ⟨v, hv⟩
    exact ⟨_, Entries.mem_of_named? hv, rfl⟩

/-- Where keys are distinct, no name is listed twice. -/
theorem nodup_entryNames {es : Entries} (hd : Entries.Distinct es) (mark : Option Mark) :
    (Scope.entryNames (.map es mark)).Nodup := by
  rw [Scope.entryNames, List.Nodup, List.pairwise_filterMap]
  refine hd.imp fun {e f} hne name hname other hother heq => ?_
  obtain ⟨k, v⟩ := e
  obtain ⟨l, w⟩ := f
  cases k with
  | text a =>
    cases l with
    | text b =>
      cases hname
      cases hother
      simp [heq] at hne
    | _ => cases hother
  | _ => cases hname

/-- The section of a tree that fits is a mapping that fits. -/
theorem exists_settings (h : Schema.Fits (Schema.wholeTheme blocks elements) es) {v : Value}
    (hv : Entries.named? "settings" es = some v) :
    ∃ ss, v = .map ss ∧ ss ≠ [] ∧ Schema.Fits (Schema.settingsSection blocks) ss := by
  obtain ⟨s, hs, hsv⟩ := h.named? hv
  cases hs
  exact Schema.accepts_fields.mp hsv

/-- The blocks of settings that fit are a mapping of settings that fit. -/
theorem exists_blocks {ss : Entries} (h : Schema.Fits (Schema.settingsSection blocks) ss)
    {v : Value} (hv : Entries.named? "blocks" ss = some v) :
    ∃ bs fields, v = .map bs ∧ bs ≠ [] ∧
      Schema.forNames blocks (.fields Schema.settings) = .fields fields ∧
      Schema.Fits fields bs := by
  obtain ⟨s, hs, hsv⟩ := h.named? hv
  cases hs
  obtain ⟨bs, rfl, hne, hfits⟩ := Schema.accepts_fields.mp hsv
  exact ⟨bs, _, rfl, hne, rfl, hfits⟩

/-- What stands at a place of a tree that fits are settings, with fields of blocks beside them at
the root. -/
theorem Schema.Fits.exists_place (h : Schema.Fits (Schema.wholeTheme blocks elements) es)
    (hplace : SettingPlace blocks place) {v : Value} (hv : Value.walk? place (.map es) = some v) :
    ∃ fields ss, (∀ name s, field? settings name = some s → field? fields name = some s) ∧
      v = .map ss ∧ Fits fields ss := by
  obtain ⟨s, hs, hsv⟩ := h.walk? hv
  specialize hsv hplace.ne_nil
  cases hplace with
  | root =>
    change some (Schema.fields (settingsSection blocks)) = some s at hs
    cases hs
    obtain ⟨ss, rfl, -, hss⟩ := accepts_fields.mp hsv
    exact ⟨_, ss, fun _ _ => field?_settingsSection, rfl, hss⟩
  | @block name hmem =>
    have hpart : part? [name] (forNames blocks (.fields settings)) = some s := hs
    rw [part?_forNames, if_pos hmem] at hpart
    cases hpart
    obtain ⟨ss, rfl, -, hss⟩ := accepts_fields.mp hsv
    exact ⟨_, ss, fun _ _ hs => hs, rfl, hss⟩

/-- The settings that a tree that fits has anywhere are those of a place. -/
theorem Schema.Fits.exists_settingPlace (h : Schema.Fits (Schema.wholeTheme blocks elements) es)
    {keys : List Key} (hkeys : SettingKeys keys) {v : Value}
    (hv : walkKeys? keys (.map es) = some v) :
    ∃ place, SettingPlace blocks place ∧ keys = Path.keys place := by
  cases hkeys with
  | root => exact ⟨_, .root, rfl⟩
  | block key =>
    rw [Value.walkKeys?_cons_map, Option.bind_eq_some_iff] at hv
    obtain ⟨u, hu, hv⟩ := hv
    obtain ⟨ss, rfl, -, hss⟩ := exists_settings h hu
    rw [Value.walkKeys?_cons_map, Option.bind_eq_some_iff] at hv
    obtain ⟨u, hu, hv⟩ := hv
    obtain ⟨bs, fields, rfl, -, hfields, hbs⟩ := exists_blocks hss hu
    rw [Value.walkKeys?_singleton_map] at hv
    obtain ⟨k, hkey, hmem⟩ := Entries.mem_of_get? hv
    obtain ⟨s, hs, -⟩ := hbs.value hmem
    obtain ⟨name, rfl, hname⟩ := exists_text_of_ofKey? hs
    rw [Key.agrees_comm] at hkey
    rw [Key.text_agrees_iff.mp hkey]
    rw [field?_forNames hfields] at hname
    exact ⟨_, .block (Option.ite_none_right_eq_some.mp hname).1, rfl⟩

/-- The names of the blocks of settings that fit are those of blocks that have an entry there. -/
theorem mem_blockNames_iff {ss : Entries} (h : Schema.Fits (Schema.settingsSection blocks) ss)
    {v : Value} (hv : Entries.named? "blocks" ss = some v) {name : String} :
    name ∈ Scope.entryNames v ↔ name ∈ blocks ∧ (walk? [name] v).isSome = true := by
  obtain ⟨bs, fields, rfl, -, hfields, hbs⟩ := exists_blocks h hv
  rw [mem_entryNames_iff hbs.distinct, Value.walk?_singleton_map]
  refine ⟨fun hsome => ⟨?_, hsome⟩, And.right⟩
  obtain ⟨w, hw⟩ := Option.isSome_iff_exists.mp hsome
  obtain ⟨s, hs, -⟩ := hbs.named? hw
  rw [Schema.field?_forNames hfields] at hs
  exact (Option.ite_none_right_eq_some.mp hs).1

/-- **The scopes of a tree that fits are the places that lead anywhere.** -/
theorem mem_scopePaths_iff (h : Schema.Fits (Schema.wholeTheme blocks elements) es)
    (table : BlockTable) : place ∈ (settingScopes table (.map es)).map (·.path) ↔
      SettingPlace blocks place ∧ (walk? place (.map es)).isSome = true := by
  have hsettings : Value.entryNamed? "settings" (.map es) = Entries.named? "settings" es := rfl
  rw [settingScopes, hsettings]
  cases hv : Entries.named? "settings" es with
  | none =>
    simp only [List.map_nil, List.not_mem_nil, false_iff, not_and]
    rintro (_ | _) <;> simp [hv]
  | some v =>
    obtain ⟨ss, rfl, -, hss⟩ := exists_settings h hv
    simp only [List.map_cons, List.mem_cons]
    constructor
    · rintro (rfl | hplace)
      · exact ⟨.root, by simp [hv]⟩
      · cases hb : Entries.named? "blocks" ss with
        | none => rw [hb] at hplace; simp at hplace
        | some b =>
          rw [hb] at hplace
          simp only [List.map_map, List.mem_map, Function.comp_apply, Scope.ofSettledBlock]
            at hplace
          obtain ⟨name, hname, rfl⟩ := hplace
          obtain ⟨hmem, hsome⟩ := (mem_blockNames_iff hss hb).mp hname
          exact ⟨.block hmem, by simpa [hv, hb] using hsome⟩
    · rintro ⟨_ | @⟨name, hname⟩, hsome⟩
      · exact .inl rfl
      · right
        simp only [Value.walk?_cons_map, hv, Option.bind_some] at hsome
        cases hb : Entries.named? "blocks" ss with
        | none => rw [hb] at hsome; cases hsome
        | some b =>
          rw [hb, Option.bind_some] at hsome
          simp only [List.map_map, List.mem_map, Function.comp_apply, Scope.ofSettledBlock]
          exact ⟨name, (mem_blockNames_iff hss hb).mpr ⟨hname, hsome⟩, rfl⟩

end Scopes

/-! ### Changes of every place -/

namespace Entries

/-- The settings of the root changed, and then those of every block. -/
def onScopes (f : Entries → Entries) (es : Entries) : Entries :=
  modifyMap "settings" (fun ss => modifyMap "blocks" (mapEach f) (f ss)) es

/-- Entries other than the settings stay. -/
theorem named?_onScopes_of_ne (f : Entries → Entries) (es : Entries) {name : String}
    (h : name ≠ "settings") : named? name (onScopes f es) = named? name es := by
  rw [onScopes, named?_modifyMap, if_neg h]

/-- The settings of a block are changed. -/
theorem walkKeys?_onScopes_block {f : Entries → Entries}
    (hf : ∀ ss, named? "blocks" (f ss) = named? "blocks" ss) (key : Key) (es : Entries)
    (mark : Option Mark) :
    walkKeys? [.text "settings", .text "blocks", key] (.map (onScopes f es) mark) =
      (walkKeys? [.text "settings", .text "blocks", key] (.map es mark)).map (Value.onMap f) := by
  rw [Value.walkKeys?_cons_map, Value.walkKeys?_cons_map, ← named?, ← named?, onScopes,
    named?_modifyMap, if_pos rfl]
  cases named? "settings" es with
  | none => rfl
  | some v =>
    cases v with
    | map ss m =>
      rw [Option.map_some, Option.bind_some, Option.bind_some, Value.onMap,
        Value.walkKeys?_cons_map, Value.walkKeys?_cons_map, ← named?, ← named?, named?_modifyMap,
        if_pos rfl, hf]
      cases named? "blocks" ss with
      | none => rfl
      | some w =>
        cases w with
        | map bs m =>
          rw [Option.map_some, Option.bind_some, Option.bind_some, Value.onMap,
            Value.walkKeys?_singleton_map, Value.walkKeys?_singleton_map, get?_mapEach]
        | _ => rfl
    | _ => rfl

/-- **A change of every place, seen at one of them.** What is below a place changes as the settings
of the place do, provided that the change lets the blocks be. -/
theorem walkKeys?_onScopes {place : List Key} {q : Path} {f : Entries → Entries}
    (hf : ∀ ss, named? "blocks" (f ss) = named? "blocks" ss) (h : SettingKeys place)
    (hq : q.isOwn = true) (es : Entries) (mark : Option Mark) :
    walkKeys? (place ++ q.keys) (.map (onScopes f es) mark) =
      ((walkKeys? place (.map es mark)).map (Value.onMap f)).bind (walk? q) := by
  have hwalk : walkKeys? q.keys = walk? q := funext (Value.walkKeys?_keys q)
  rw [Value.walkKeys?_append, hwalk]
  cases h with
  | root =>
    rw [Value.walkKeys?_singleton_map, Value.walkKeys?_singleton_map, ← named?, ← named?, onScopes,
      named?_modifyMap, if_pos rfl]
    cases named? "settings" es with
    | none => rfl
    | some v =>
      cases v with
      | map ss m =>
        obtain ⟨name, rest, rfl, hname⟩ := Path.exists_of_isOwn hq
        simp only [Option.map_some, Value.onMap, Option.bind_some, Value.walk?_cons_map,
          named?_modifyMap, if_neg hname]
      | _ => rfl
  | block key => rw [walkKeys?_onScopes_block hf]

/-- A change of every place, seen at one that is reached by names. -/
theorem walk?_onScopes {blocks : List String} {place q : Path} {f : Entries → Entries}
    (hf : ∀ ss, named? "blocks" (f ss) = named? "blocks" ss) (h : SettingPlace blocks place)
    (hq : q.isOwn = true) (es : Entries) (mark : Option Mark) :
    walk? (place ++ q) (.map (onScopes f es) mark) =
      ((walk? place (.map es mark)).map (Value.onMap f)).bind (walk? q) := by
  have hkeys := walkKeys?_onScopes hf h.keys hq es mark
  rwa [← Path.keys_append, Value.walkKeys?_keys, Value.walkKeys?_keys] at hkeys

/-- What the change leaves alone in every scope stays where it is. -/
theorem walk?_onScopes_eq {blocks : List String} {place q : Path} {f : Entries → Entries}
    (hf : ∀ ss, named? "blocks" (f ss) = named? "blocks" ss) (h : SettingPlace blocks place)
    (hq : q.isOwn = true)
    (hkeep : ∀ ss mark, walk? q (.map (f ss) mark) = walk? q (.map ss mark)) (es : Entries)
    (mark : Option Mark) : walk? (place ++ q) (.map (onScopes f es) mark) =
      walk? (place ++ q) (.map es mark) := by
  rw [walk?_onScopes hf h hq, Value.walk?_append]
  cases walk? place (.map es mark) with
  | none => rfl
  | some v =>
    cases v with
    | map ss mark => exact hkeep ss mark
    | _ =>
      obtain ⟨name, rest, rfl, -⟩ := Path.exists_of_isOwn hq
      rfl

/-- A change that changes no settings changes nothing, if no two blocks have one key. -/
theorem onScopes_eq_self_of_keys {es : Entries} {f : Entries → Entries} (mark : Option Mark)
    (hd : ∀ bs m, walkKeys? [.text "settings", .text "blocks"] (.map es mark) = some (.map bs m) →
      Distinct bs)
    (hf : ∀ place ss m, SettingKeys place → walkKeys? place (.map es mark) = some (.map ss m) →
      f ss = ss) : onScopes f es = es := by
  refine modifyMap_eq_self fun v hv => ?_
  cases v with
  | map ss m =>
    have hroot : walkKeys? [.text "settings"] (.map es mark) = some (.map ss m) := by
      rw [Value.walkKeys?_singleton_map]
      exact hv
    rw [Value.onMap, hf _ ss m .root hroot]
    congr 1
    refine modifyMap_eq_self fun b hb => ?_
    cases b with
    | map bs m' =>
      have hblocks : walkKeys? [.text "settings", .text "blocks"] (.map es mark) =
          some (.map bs m') := by
        rw [← List.singleton_append, Value.walkKeys?_append, hroot, Option.bind_some,
          Value.walkKeys?_singleton_map]
        exact hb
      rw [Value.onMap]
      congr 1
      refine mapEach_eq_self fun e he => ?_
      obtain ⟨key, u⟩ := e
      cases u with
      | map inner m'' =>
        refine congrArg (Value.map · m'') (hf _ inner m'' (.block key) ?_)
        have hsplit : [Key.text "settings", .text "blocks", key] =
            [.text "settings", .text "blocks"] ++ [key] := rfl
        rw [hsplit, Value.walkKeys?_append, hblocks, Option.bind_some,
          Value.walkKeys?_singleton_map]
        exact get?_of_mem (hd bs m' hblocks) he
      | _ => rfl
    | _ => rfl
  | _ => rfl

/-- A change that changes no settings of a tree that fits changes nothing. -/
theorem onScopes_eq_self {blocks elements : List String} {es : Entries} {f : Entries → Entries}
    (h : Schema.Fits (Schema.wholeTheme blocks elements) es)
    (hf : ∀ place ss, SettingPlace blocks place → walk? place (.map es) = some (.map ss) →
      f ss = ss) : onScopes f es = es := by
  refine onScopes_eq_self_of_keys none (fun bs m hbs => ?_) fun keys ss m hkeys hss => ?_
  · rw [Value.walkKeys?_cons_map, Option.bind_eq_some_iff] at hbs
    obtain ⟨v, hv, hbs⟩ := hbs
    obtain ⟨ss, rfl, -, hss⟩ := exists_settings h hv
    rw [Value.walkKeys?_singleton_map] at hbs
    obtain ⟨_, fields, heq, -, -, hfits⟩ := exists_blocks hss hbs
    cases heq
    exact hfits.distinct
  · obtain ⟨place, hplace, rfl⟩ := h.exists_settingPlace hkeys hss
    rw [Value.walkKeys?_keys] at hss
    obtain ⟨-, _, -, heq, -⟩ := h.exists_place hplace hss
    cases heq
    exact hf place ss hplace hss

theorem HaveContent.onScopes {c : Content} {es : Entries} (h : HaveContent c es)
    {f : Entries → Entries} (hf : ∀ fs, HaveContent c fs → HaveContent c (f fs)) :
    HaveContent c (Entries.onScopes f es) :=
  h.modifyMap _ fun ss hss => (hf ss hss).modifyMap _ fun _ hbs => hbs.mapEach hf

end Entries

/-- **A change that keeps settings fitting keeps a whole tree fitting.** The fields of the settings
are more at the root than in a block, so the change is given any fields that have those of the
settings among them. -/
theorem Schema.Fits.onScopes {blocks elements : List String} {es : Entries} {f : Entries → Entries}
    (h : Fits (wholeTheme blocks elements) es)
    (hf : ∀ fields ss, (∀ name s, field? settings name = some s → field? fields name = some s) →
      ss ≠ [] → Fits fields ss → f ss ≠ [] ∧ Fits fields (f ss)) :
    Fits (wholeTheme blocks elements) (Entries.onScopes f es) := by
  refine h.modifyMap fun s inner hs hsv => ?_
  cases hs
  obtain ⟨ss, heq, hne, hss⟩ := accepts_fields.mp hsv
  cases heq
  obtain ⟨hne', hss'⟩ := hf (settingsSection blocks) inner
    (fun name s => field?_settingsSection) hne hss
  refine accepts_fields.mpr ⟨_, rfl, ?_, hss'.modifyMap fun s inner hs hsv => ?_⟩
  · exact Entries.ne_nil_of_keys_eq (Entries.keys_modifyMap _ _ _) hne'
  · cases hs
    obtain ⟨bs, heq, hne, hbs⟩ := accepts_fields.mp hsv
    cases heq
    refine accepts_fields.mpr ⟨_, rfl, ?_, hbs.mapEach fun s inner hs hsv => ?_⟩
    · exact Entries.ne_nil_of_keys_eq (Entries.keys_mapEach _ _) hne
    · obtain ⟨name, hname⟩ := hs
      rw [field?, lookup_map_self] at hname
      split at hname
      next =>
        cases hname
        obtain ⟨fs, heq, hne, hfs⟩ := accepts_fields.mp hsv
        cases heq
        exact accepts_fields.mpr ⟨_, rfl, hf settings inner (fun _ _ hs => hs) hne hfs⟩
      next => cases hname

end ThemeSheet
