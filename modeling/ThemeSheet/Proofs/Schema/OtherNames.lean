import ThemeSheet.Proofs.Schema.Places

/-!
# Trees pruned for other names of blocks

The schema of a theme tree is made for names of blocks. A tree that fits the schema for some names
and is pruned to the one for others loses the blocks that are named no more, and a section that has
nothing else goes with them. All the rest stays, in its order: the sections have the same fields
beside the blocks, and the schema of a block is the same under every name.

So the scopes of the tree that is left are those of the tree before, without the scopes of blocks
that nobody knows; and those have no selectors.

## Main definitions

* `Entries.under`, the entries of the mapping under a name;
* `Schema.Renamed`, of sections that differ in the names of blocks alone;
* `Scope.compiles`, of a scope that has a selector.

## Main results

* `Schema.Fits.more`: what fits the schema for some names fits that for more;
* `Schema.Renamed.named?_of_ne`, `under_blocks`: what is left of a section;
* `walk?_sanitize_settings`, `walk?_sanitize_styles`, `walk?_sanitize_block`: what is left of a
  tree;
* `filter_settingScopes`, `filter_styleScopes`: the scopes of what is left.
-/

namespace ThemeSheet

open Value (walk?)

/-! ### Entries under a name -/

namespace Entries

variable {es : Entries} {name : String} {v : Value}

/-- The entries of the mapping under a name: none if there is no mapping. -/
def under (name : String) (es : Entries) : Entries :=
  ((named? name es).bind Value.entries?).getD []

theorem under_of_named? {inner : Entries} {mark : Option Mark}
    (h : named? name es = some (.map inner mark)) : under name es = inner := by
  rw [under, h]
  rfl

theorem under_of_named?_eq_none (h : named? name es = none) : under name es = [] := by
  rw [under, h]
  rfl

/-- A walk below a name goes on in the entries under it. -/
theorem walk?_under {q : Path} (h : q ≠ []) (name : String) (es : Entries) (mark : Option Mark) :
    walk? (name :: q) (.map es mark) = walk? q (.map (under name es)) := by
  obtain ⟨other, rest, rfl⟩ := List.exists_cons_of_ne_nil h
  rw [Value.walk?_cons_map, under]
  cases named? name es with
  | none => rfl
  | some v => cases v <;> rfl

/-- What stands under a name, if anything does, is a mapping that has entries. -/
def Filled (name : String) (es : Entries) : Prop :=
  ∀ v, named? name es = some v → ∃ inner mark, v = .map inner mark ∧ inner ≠ []

theorem Filled.cases (h : Filled name es) : (named? name es = none ∧ under name es = []) ∨
    ∃ inner mark, named? name es = some (.map inner mark) ∧ under name es = inner ∧
      inner ≠ [] := by
  cases hv : named? name es with
  | none => exact .inl ⟨rfl, under_of_named?_eq_none hv⟩
  | some v =>
    obtain ⟨inner, mark, rfl, hne⟩ := h v hv
    exact .inr ⟨inner, mark, rfl, under_of_named? hv, hne⟩

/-- Whether a name has an entry, where only mappings with entries stand under it. -/
theorem Filled.isSome_iff (h : Filled name es) :
    (named? name es).isSome = true ↔ under name es ≠ [] := by
  rcases h.cases with ⟨hnone, hempty⟩ | ⟨inner, mark, hsome, hinner, hne⟩
  · simp [hnone, hempty]
  · simp [hsome, hinner, hne]

end Entries

/-- Whether a key is one of some names. -/
def Key.isAmong (names : List String) : Key → Bool
  | .text name => names.contains name
  | _ => false

/-- A name that is among the names is found as well when other entries are dropped. -/
theorem Entries.named?_filter_isAmong {names : List String} {name : String} (h : name ∈ names)
    (es : Entries) : named? name (es.filter fun e => e.1.isAmong names) = named? name es := by
  induction es with
  | nil => rfl
  | cons e es ih =>
    rw [named?] at ih ⊢
    rw [named?, get?_cons, List.filter_cons]
    by_cases hkey : (Key.text name).agrees e.1 = true
    · have hamong : e.1.isAmong names = true := by
        rw [Key.text_agrees_iff.mp hkey, Key.isAmong]
        exact List.contains_iff_mem.mpr h
      rw [if_pos hamong, get?_cons, if_pos hkey, if_pos hkey]
    · rw [if_neg hkey]
      split
      · rw [get?_cons, if_neg hkey, ih]
        rfl
      · exact ih

namespace Schema

open Entries (under Filled)

variable {blocks names elements : List String} {inner s : Schema} {es bs : Entries} {v : Value}
  {fields fields' sub : List (String × Schema)} {name : String}

/-! ### Pruning one level -/

/-- What is accepted is kept as it is. -/
theorem kept?_of_accepts (h : s.Accepts v) : kept? (some s) v = some v := by
  cases s with
  | any => rfl
  | fields sub =>
    obtain ⟨inner, rfl, hne, hfits⟩ := accepts_fields.mp h
    rw [kept?, prune_map, pruneEntries_of_fits sub inner hfits]
    cases inner with
    | nil => exact absurd rfl hne
    | cons e inner => rfl

/-- Pruning below a name. -/
theorem under_pruneEntries (hd : Entries.Distinct es)
    (hfield : field? fields name = some (.fields sub)) :
    under name (pruneEntries fields es) = pruneEntries sub (under name es) := by
  have hnil : pruneEntries sub [] = [] := by rw [pruneEntries]
  rw [under, under, named?_pruneEntries hd, hfield]
  cases Entries.named? name es with
  | none => exact hnil.symm
  | some v =>
    rw [Option.bind_some, Option.bind_some, kept?]
    cases v with
    | map inner mark =>
      rw [prune_map]
      change _ = pruneEntries sub inner
      cases pruneEntries sub inner <;> rfl
    | _ =>
      rw [prune_of_not_map rfl]
      exact hnil.symm

/-- Nothing but a mapping with entries is left under the name of a section. -/
theorem filled_pruneEntries (hd : Entries.Distinct es)
    (hfield : field? fields name = some (.fields sub)) : Filled name (pruneEntries fields es) := by
  intro v hv
  rw [named?_pruneEntries hd, hfield, Option.bind_eq_some_iff] at hv
  obtain ⟨w, -, hw⟩ := hv
  obtain ⟨hany, -⟩ | ⟨sub', inner, mark, -, -, hne, rfl⟩ := cases_of_kept? hw
  · cases hany
  · exact ⟨_, none, rfl, hne⟩

/-- Nothing but a mapping with entries fits under the name of a section. -/
theorem Fits.filled (h : Fits fields es) (hfield : field? fields name = some (.fields sub)) :
    Filled name es := by
  intro v hv
  obtain ⟨s, hs, hsv⟩ := h.named? hv
  rw [hfield] at hs
  cases hs
  obtain ⟨inner, rfl, hne, -⟩ := accepts_fields.mp hsv
  exact ⟨inner, none, rfl, hne⟩

/-- What stands under the name of a section fits its fields. -/
theorem Fits.under (h : Fits fields es) (hfield : field? fields name = some (.fields sub)) :
    Fits sub (under name es) := by
  rcases (h.filled hfield).cases with ⟨-, hempty⟩ | ⟨inner, mark, hsome, hinner, -⟩
  · rw [hempty]
    exact fits_nil sub
  · obtain ⟨s, hs, hsv⟩ := h.named? hsome
    rw [hfield] at hs
    cases hs
    obtain ⟨inner', heq, -, hfits⟩ := accepts_fields.mp hsv
    cases heq
    rwa [hinner]

/-! ### Sections for other names -/

/-- Two lists of fields differ in the names of the blocks alone. -/
structure Renamed (blocks names : List String) (inner : Schema)
    (fields fields' : List (String × Schema)) : Prop where
  same : ∀ name, name ≠ "blocks" → field? fields' name = field? fields name
  before : field? fields "blocks" = some (forNames blocks inner)
  after : field? fields' "blocks" = some (forNames names inner)

theorem renamed_settingsSection (blocks names : List String) :
    Renamed blocks names (.fields settings) (settingsSection blocks) (settingsSection names) := by
  refine ⟨fun name hne => ?_, rfl, rfl⟩
  have hlookup : ∀ blocks, field? (settingsSection blocks) name = settings.lookup name := by
    intro blocks
    rw [field?, settingsSection, List.lookup_append, List.lookup_cons,
      beq_eq_false_iff_ne.mpr hne, List.lookup_nil, Option.or_none]
  rw [hlookup, hlookup]

theorem renamed_stylesSection (blocks names elements : List String) :
    Renamed blocks names (blockStyles elements) (stylesSection blocks elements)
      (stylesSection names elements) := by
  refine ⟨fun name hne => ?_, rfl, rfl⟩
  have hlookup : ∀ blocks, field? (stylesSection blocks elements) name =
      (rootStyles.lookup name).or (List.lookup name [("elements", elementStyles elements)]) := by
    intro blocks
    rw [field?, stylesSection, List.lookup_append, List.lookup_cons, beq_eq_false_iff_ne.mpr hne]
  rw [hlookup, hlookup]

/-- **What is left of the blocks** are those whose names are still known. -/
theorem pruneEntries_forNames (h : Fits (blocks.eraseDups.map fun name => (name, s)) bs) :
    pruneEntries (names.eraseDups.map fun name => (name, s)) bs =
      bs.filter fun e => e.1.isAmong names := by
  induction bs with
  | nil => rw [pruneEntries]; rfl
  | cons e bs ih =>
    obtain ⟨k, v⟩ := e
    rw [Fits, ofKey_match_iff] at h
    obtain ⟨-, hbs, s', hk, hv⟩ := h
    obtain ⟨name, rfl, hname⟩ := exists_text_of_ofKey? hk
    rw [field?_forNames rfl] at hname
    split at hname
    next =>
      cases hname
      have hamong : (Key.text name).isAmong names = true ↔ name ∈ names := List.contains_iff_mem
      rw [pruneEntries_cons, ofKey?_text, field?_forNames rfl, ih hbs, List.filter_cons]
      by_cases hmem : name ∈ names
      · rw [if_pos hmem, if_pos (hamong.mpr hmem), kept?_of_accepts hv]
      · rw [if_neg hmem, if_neg (mt hamong.mp hmem)]
        rfl
    next => cases hname

section Renamed

variable (h : Renamed blocks names inner fields fields') (hfits : Fits fields es)
include h hfits

/-- Beside the blocks all of a section is left. -/
theorem Renamed.named?_of_ne (hne : name ≠ "blocks") :
    Entries.named? name (pruneEntries fields' es) = Entries.named? name es := by
  rw [named?_pruneEntries hfits.distinct]
  cases hv : Entries.named? name es with
  | none => rfl
  | some v =>
    obtain ⟨s, hs, hsv⟩ := hfits.named? hv
    rw [Option.bind_some, h.same name hne, hs, kept?_of_accepts hsv]

theorem Renamed.walk?_of_isOwn {q : Path} (hq : q.isOwn = true) :
    walk? q (.map (pruneEntries fields' es)) = walk? q (.map es) := by
  obtain ⟨name, rest, rfl, hne⟩ := Path.exists_of_isOwn hq
  rw [Value.walk?_cons_map, Value.walk?_cons_map, h.named?_of_ne hfits hne]

/-- Of the blocks of a section those are left whose names are known. -/
theorem Renamed.under_blocks : under "blocks" (pruneEntries fields' es) =
    (under "blocks" es).filter fun e => e.1.isAmong names := by
  rw [under_pruneEntries hfits.distinct h.after]
  exact pruneEntries_forNames (hfits.under h.before)

/-- What is left of a block whose name is known is all of it. -/
theorem Renamed.walk?_block {q : Path} (hname : name ∈ names) :
    walk? ("blocks" :: name :: q) (.map (pruneEntries fields' es)) =
      walk? ("blocks" :: name :: q) (.map es) := by
  have hne : name :: q ≠ [] := List.cons_ne_nil _ _
  rw [Entries.walk?_under hne, Entries.walk?_under hne, h.under_blocks hfits,
    Value.walk?_cons_map, Value.walk?_cons_map, Entries.named?_filter_isAmong hname]

end Renamed

/-! ### More names -/

/-- **Fitting is kept by fields that accept more.** -/
theorem Fits.mono (h : Fits fields es) (hmore : ∀ name s, field? fields name = some s →
    ∃ s', field? fields' name = some s' ∧ ∀ v, s.Accepts v → s'.Accepts v) : Fits fields' es := by
  refine fits_iff.mpr ⟨h.distinct, fun e he => ?_⟩
  obtain ⟨s, hs, hsv⟩ := h.value he
  obtain ⟨name, hkey, hname⟩ := exists_text_of_ofKey? hs
  obtain ⟨s', hs', haccepts⟩ := hmore name s hname
  exact ⟨s', by rw [hkey, ofKey?_text, hs'], haccepts _ hsv⟩

theorem accepts_mono (hv : Accepts (.fields fields) v)
    (hmore : ∀ es, Fits fields es → Fits fields' es) : Accepts (.fields fields') v := by
  obtain ⟨es, rfl, hne, hfits⟩ := accepts_fields.mp hv
  exact accepts_fields.mpr ⟨es, rfl, hne, hmore es hfits⟩

theorem Renamed.fits (h : Renamed blocks names inner fields fields') (hsub : blocks ⊆ names)
    (hfits : Fits fields es) : Fits fields' es := by
  refine hfits.mono fun name s hs => ?_
  by_cases hname : name = "blocks"
  · subst hname
    rw [h.before] at hs
    cases hs
    refine ⟨_, h.after, fun v hv => accepts_mono hv fun bs hbs => hbs.mono fun block s hs => ?_⟩
    rw [field?_forNames rfl] at hs ⊢
    split at hs
    next hmem => exact ⟨s, by rw [if_pos (hsub hmem), hs], fun _ hv => hv⟩
    next => cases hs
  · exact ⟨s, by rw [h.same name hname, hs], fun _ hv => hv⟩

/-- **What fits the schema for some names of blocks fits that for more.** -/
theorem Fits.more (h : Fits (wholeTheme blocks elements) es) (hsub : blocks ⊆ names) :
    Fits (wholeTheme names elements) es := by
  refine h.mono fun name s hs => ?_
  by_cases hstyles : name = "styles"
  · subst hstyles
    cases hs
    exact ⟨_, rfl, fun v hv => accepts_mono hv fun _ =>
      (renamed_stylesSection blocks names elements).fits hsub⟩
  by_cases hsettings : name = "settings"
  · subst hsettings
    cases hs
    exact ⟨_, rfl, fun v hv => accepts_mono hv fun _ =>
      (renamed_settingsSection blocks names).fits hsub⟩
  · refine ⟨s, ?_, fun _ hv => hv⟩
    rw [← hs]
    simp [field?, wholeTheme, theme, List.lookup_cons, beq_eq_false_iff_ne.mpr hstyles,
      beq_eq_false_iff_ne.mpr hsettings]

end Schema

/-! ### Scopes -/

/-- What the entries that are kept give, where those that are dropped give nothing that counts. -/
theorem filter_flatMap_filter {α β : Type} {l : List α} {f : α → List β} {keep : α → Bool}
    {counts : β → Bool} (h : ∀ a ∈ l, keep a = false → ∀ b ∈ f a, counts b = false) :
    ((l.filter keep).flatMap f).filter counts = (l.flatMap f).filter counts := by
  induction l with
  | nil => rfl
  | cons a l ih =>
    obtain ⟨ha, hl⟩ := List.forall_mem_cons.mp h
    rw [List.flatMap_cons, List.filter_append, ← ih hl, List.filter_cons]
    cases hkeep : keep a with
    | true => rw [if_pos rfl, List.flatMap_cons, List.filter_append]
    | false =>
      have hnone : (f a).filter counts = [] := List.filter_eq_nil_iff.mpr fun b hb => by
        simp [ha hkeep b hb]
      rw [if_neg Bool.false_ne_true, hnone, List.nil_append]

/-- A block that is not in a table has no metadata. -/
theorem BlockTable.find?_eq_none {table : BlockTable} {name : String} (h : name ∉ table.names) :
    table.find? name = none := by
  rw [find?, List.lookup_eq_none_iff]
  intro entry hentry
  simpa using fun heq : name = entry.1 => h (heq ▸ List.mem_map_of_mem hentry)

namespace Scope

open Entries (under Filled)

variable {table : BlockTable} {es : Entries} {e : Key × Value} {scope : Scope}

/-- Whether a scope compiles to anything: it has a selector. -/
def compiles (scope : Scope) : Bool := scope.selector.isSome

/-- The scope of an entry among the blocks of the settings. -/
def ofSettledEntry (table : BlockTable) (e : Key × Value) : List Scope :=
  match e.1 with
  | .text name => [ofSettledBlock table name]
  | _ => []

/-- The scopes of an entry among the blocks of the styles. -/
def ofStyledEntry (table : BlockTable) (e : Key × Value) : List Scope :=
  match e.1 with
  | .text name => ofStyledBlock table name e.2
  | _ => []

/-- The scopes of settings, read off the entries of the settings and of the blocks in them. -/
theorem settingScopes_eq (h : Filled "settings" es) (table : BlockTable) :
    settingScopes table (.map es) = if under "settings" es = [] then [] else
      ⟨["settings"], some rootSelector, none⟩ ::
        (under "blocks" (under "settings" es)).flatMap (ofSettledEntry table) := by
  rw [settingScopes, Value.entryNamed?]
  rcases h.cases with ⟨hnone, hempty⟩ | ⟨ss, mark, hsome, hunder, hne⟩
  · rw [hnone, if_pos hempty]
  · rw [hsome, hunder, if_neg hne]
    dsimp only
    congr 1
    have hentries : ∀ bs : Entries, (entryNames (.map bs)).map (ofSettledBlock table) =
        bs.flatMap (ofSettledEntry table) := by
      intro bs
      induction bs with
      | nil => rfl
      | cons e bs ih =>
        rw [List.flatMap_cons, ← ih]
        obtain ⟨k, v⟩ := e
        cases k <;> rfl
    rw [under, ← hentries]
    cases Entries.named? "blocks" ss with
    | none => rfl
    | some v => cases v <;> rfl

/-- The scopes of styles, read off the entries of the styles and of the blocks in them. -/
theorem styleScopes_eq (h : Filled "styles" es) (table : BlockTable) :
    styleScopes table (.map es) = if under "styles" es = [] then [] else
      ⟨["styles"], some rootSelector, none⟩ :: (ofRootElements (.map (under "styles" es)) ++
        (under "blocks" (under "styles" es)).flatMap (ofStyledEntry table)) := by
  rw [styleScopes, Value.entryNamed?]
  rcases h.cases with ⟨hnone, hempty⟩ | ⟨ss, mark, hsome, hunder, hne⟩
  · rw [hnone, if_pos hempty]
  · rw [hsome, hunder, if_neg hne]
    dsimp only
    congr 2
    rw [ofStyledBlocks, Value.entryNamed?, under]
    cases Entries.named? "blocks" ss with
    | none => rfl
    | some v => cases v <;> rfl

/-- What a block that is not in the table has does not compile. -/
theorem compiles_ofSettledEntry (he : e.1.isAmong table.names = false)
    (hscope : scope ∈ ofSettledEntry table e) : scope.compiles = false := by
  obtain ⟨k, v⟩ := e
  cases k with
  | text name =>
    have hname : name ∉ table.names := by simpa [Key.isAmong] using he
    rw [List.mem_singleton.mp hscope, compiles, ofSettledBlock, BlockTable.find?_eq_none hname]
    rfl
  | _ => cases hscope

theorem compiles_ofStyledEntry (he : e.1.isAmong table.names = false)
    (hscope : scope ∈ ofStyledEntry table e) : scope.compiles = false := by
  obtain ⟨k, v⟩ := e
  cases k with
  | text name =>
    have hname : name ∉ table.names := by simpa [Key.isAmong] using he
    change scope ∈ ofStyledBlock table name v at hscope
    rw [ofStyledBlock, BlockTable.find?_eq_none hname] at hscope
    rcases List.mem_cons.mp hscope with rfl | hscope
    · rfl
    · split at hscope
      · obtain ⟨element, -, rfl⟩ := List.mem_map.mp hscope
        rfl
      · cases hscope
  | _ => cases hscope

/-- The block of a scope of settings that compiles is in the table. -/
theorem settingPlace_of_compiles {tree : Value} (h : scope ∈ settingScopes table tree)
    (hcompiles : scope.compiles = true) : SettingPlace table.names scope.path := by
  rw [settingScopes] at h
  split at h
  next es mark =>
    rcases List.mem_cons.mp h with rfl | h
    · exact .root
    · split at h
      next blocks =>
        obtain ⟨name, -, rfl⟩ := List.mem_map.mp h
        by_cases hname : name ∈ table.names
        · exact .block hname
        · rw [compiles, ofSettledBlock, BlockTable.find?_eq_none hname] at hcompiles
          cases hcompiles
      next => cases h
  next => cases h

/-- A scope of styles that compiles is that of the root, or of an element at the root, or it belongs
to a block that is in the table. -/
theorem cases_of_compiles {tree : Value} (h : scope ∈ styleScopes table tree)
    (hcompiles : scope.compiles = true) : scope.path = ["styles"] ∨
      (∃ name, scope.path = ["styles", "elements", name]) ∨
        ∃ name ∈ table.names, ∃ q, scope.path = "styles" :: "blocks" :: name :: q := by
  rw [styleScopes] at h
  split at h
  next es mark =>
    rcases List.mem_cons.mp h with rfl | h
    · exact .inl rfl
    rcases List.mem_append.mp h with h | h
    · rw [ofRootElements] at h
      split at h
      · obtain ⟨name, -, rfl⟩ := List.mem_map.mp h
        exact .inr (.inl ⟨name, rfl⟩)
      · cases h
    · rw [ofStyledBlocks] at h
      split at h
      · obtain ⟨e, -, h⟩ := List.mem_flatMap.mp h
        change scope ∈ ofStyledEntry table e at h
        have hamong : e.1.isAmong table.names = true := by
          refine Bool.of_not_eq_false fun hstale => ?_
          rw [compiles_ofStyledEntry hstale h] at hcompiles
          cases hcompiles
        obtain ⟨k, v⟩ := e
        cases k with
        | text name =>
          refine .inr (.inr ⟨name, List.contains_iff_mem.mp hamong, ?_⟩)
          rcases List.mem_cons.mp h with rfl | h
          · exact ⟨[], rfl⟩
          · split at h
            · obtain ⟨element, -, rfl⟩ := List.mem_map.mp h
              exact ⟨["elements", element], rfl⟩
            · cases h
        | _ => cases h
      · cases h
  next => cases h

end Scope

section Scopes

open Entries (under Filled)
open Schema (Fits)
open Scope (compiles)

variable {blocks elements : List String} {table : BlockTable} {es : Entries} {scope : Scope}

variable (h : Fits (Schema.wholeTheme blocks elements) es)
include h

theorem under_settings_sanitize (names : List String) :
    under "settings" (sanitize names elements (.map es)) =
      Schema.pruneEntries (Schema.settingsSection names) (under "settings" es) := by
  rw [sanitize, Schema.prune_map]
  exact Schema.under_pruneEntries h.distinct rfl

theorem under_styles_sanitize (names : List String) :
    under "styles" (sanitize names elements (.map es)) =
      Schema.pruneEntries (Schema.stylesSection names elements) (under "styles" es) := by
  rw [sanitize, Schema.prune_map]
  exact Schema.under_pruneEntries h.distinct rfl

theorem filled_sanitize (names : List String) :
    Filled "settings" (sanitize names elements (.map es)) ∧
      Filled "styles" (sanitize names elements (.map es)) := by
  rw [sanitize, Schema.prune_map]
  exact ⟨Schema.filled_pruneEntries h.distinct rfl, Schema.filled_pruneEntries h.distinct rfl⟩

/-- **What is left of settings.** At a place whose block is known, all that it has of its own. -/
theorem walk?_sanitize_settings {names : List String} {place q : Path}
    (hplace : SettingPlace names place) (hq : q.isOwn = true) :
    walk? (place ++ q) (.map (sanitize names elements (.map es))) =
      walk? (place ++ q) (.map es) := by
  have hsection : Fits (Schema.settingsSection blocks) (under "settings" es) := h.under rfl
  have hrenamed := Schema.renamed_settingsSection blocks names
  cases hplace with
  | root =>
    have hne := Path.ne_nil_of_isOwn hq
    rw [List.singleton_append, Entries.walk?_under hne, Entries.walk?_under hne,
      under_settings_sanitize h, hrenamed.walk?_of_isOwn hsection hq]
  | @block name hname =>
    have hne : "blocks" :: name :: q ≠ [] := List.cons_ne_nil _ _
    change walk? ("settings" :: "blocks" :: name :: q) _ =
      walk? ("settings" :: "blocks" :: name :: q) _
    rw [Entries.walk?_under hne, Entries.walk?_under hne, under_settings_sanitize h,
      hrenamed.walk?_block hsection hname]

/-- **What is left of the styles of the root** is all that does not belong to blocks. -/
theorem walk?_sanitize_styles {q : Path} (hq : q.isOwn = true) (names : List String) :
    walk? ("styles" :: q) (.map (sanitize names elements (.map es))) =
      walk? ("styles" :: q) (.map es) := by
  have hne := Path.ne_nil_of_isOwn hq
  rw [Entries.walk?_under hne, Entries.walk?_under hne, under_styles_sanitize h,
    (Schema.renamed_stylesSection blocks names elements).walk?_of_isOwn (h.under rfl) hq]

/-- **What is left of the styles of a block** whose name is known is all of it. -/
theorem walk?_sanitize_block {names : List String} {name : String} (hname : name ∈ names)
    (q : Path) :
    walk? ("styles" :: "blocks" :: name :: q) (.map (sanitize names elements (.map es))) =
      walk? ("styles" :: "blocks" :: name :: q) (.map es) := by
  have hne : "blocks" :: name :: q ≠ [] := List.cons_ne_nil _ _
  rw [Entries.walk?_under hne, Entries.walk?_under hne, under_styles_sanitize h,
    (Schema.renamed_stylesSection blocks names elements).walk?_block (h.under rfl) hname]

/-- **The scopes of settings that are left** are, among those that compile, the ones before. -/
theorem filter_settingScopes
    (hleft : under "settings" (sanitize table.names elements (.map es)) ≠ []) :
    (settingScopes table (.map (sanitize table.names elements (.map es)))).filter compiles =
      (settingScopes table (.map es)).filter compiles := by
  have hsection : Fits (Schema.settingsSection blocks) (under "settings" es) := h.under rfl
  have hrenamed := Schema.renamed_settingsSection blocks table.names
  rw [Scope.settingScopes_eq (filled_sanitize h table.names).1, if_neg hleft,
    Scope.settingScopes_eq (h.filled rfl)]
  rw [under_settings_sanitize h] at hleft ⊢
  have hbefore : under "settings" es ≠ [] := by
    intro hnil
    rw [hnil, Schema.pruneEntries] at hleft
    exact hleft rfl
  rw [if_neg hbefore, hrenamed.under_blocks hsection, List.filter_cons, List.filter_cons,
    filter_flatMap_filter fun e _ he scope hscope => Scope.compiles_ofSettledEntry he hscope]

/-- **The scopes of styles that are left** are, among those that compile, the ones before. -/
theorem filter_styleScopes
    (hleft : under "styles" (sanitize table.names elements (.map es)) ≠ []) :
    (styleScopes table (.map (sanitize table.names elements (.map es)))).filter compiles =
      (styleScopes table (.map es)).filter compiles := by
  have hsection : Fits (Schema.stylesSection blocks elements) (under "styles" es) := h.under rfl
  have hrenamed := Schema.renamed_stylesSection blocks table.names elements
  rw [Scope.styleScopes_eq (filled_sanitize h table.names).2, if_neg hleft,
    Scope.styleScopes_eq (h.filled rfl)]
  rw [under_styles_sanitize h] at hleft ⊢
  have hbefore : under "styles" es ≠ [] := by
    intro hnil
    rw [hnil, Schema.pruneEntries] at hleft
    exact hleft rfl
  have helements : Scope.ofRootElements
      (.map (Schema.pruneEntries (Schema.stylesSection table.names elements) (under "styles" es))) =
        Scope.ofRootElements (.map (under "styles" es)) := by
    rw [Scope.ofRootElements, Scope.ofRootElements, Value.entryNamed?, Value.entryNamed?,
      hrenamed.named?_of_ne hsection (by decide)]
  rw [if_neg hbefore, helements, hrenamed.under_blocks hsection, List.filter_cons,
    List.filter_cons, List.filter_append, List.filter_append,
    filter_flatMap_filter fun e _ he scope hscope => Scope.compiles_ofStyledEntry he hscope]

end Scopes

end ThemeSheet
