import ThemeSheet.Theme.Basic
import ThemeSheet.Tree.Equality

/-!
# Merging themes

Merging a theme into another overlays its tree: mappings are merged entry by entry, and anything
else is replaced. Two things are not left to the overlay. The units of spacing and the lists of
presets are taken over whole, and of the presets that come from a theme

* those of a category that inherits names take the name of the default preset of their slug, if they
  have none;
* those whose slug a default preset has are dropped, if the settings ask for the defaults.

The slugs of default presets are those of the root and of the scope together, as they stand when the
scope is reached.

## Main definitions

* `overlay`;
* `Theme.defaultSlugs`, `Theme.mayOverride`, `Theme.withoutSlugs`, `Theme.withDefaultNames`;
* `Theme.GivesName`, `Theme.TakesName`, what names are taken from default presets;
* `Theme.merge`.

## Main results

* `Theme.withDefaultName_eq_iff`, `Theme.withDefaultNames_list_iff`: what becomes of items that may
  take names.
-/

namespace ThemeSheet

/-! ### Overlaying -/

mutual

/-- The entries of one mapping overlaid with those of another. -/
def overlay (base : Entries) : List (Key × Value) → Entries
  | [] => base
  | (k, v) :: rest => overlay (Entries.insert k (overlayValue (Entries.get? k base) v) base) rest

/-- What takes the place of an entry: two mappings are overlaid, anything else is replaced. -/
def overlayValue (old : Option Value) : Value → Value
  | .map es mark =>
    match old with
    | some (.map base same) => .map (overlay base es) same
    | _ => .map es mark
  | v => v

end

/-- A tree overlaid with another. -/
def Value.overlaid (base new : Value) : Value := overlayValue (some base) new

namespace Theme

/-! ### Presets of the defaults -/

/-- The slug of an item of a collection; null if it has none. -/
def itemSlug (item : Value) : Value := (item.entryNamed? "slug").getD .null

/-- The slugs of the default presets of a category at a scope. -/
def defaultSlugs (tree : Value) (scope : Path) (category : Category) : List Value :=
  match tree.at? (scope ++ category.path ++ [Origin.default.name]) with
  | some (.list items _) => items.map itemSlug
  | _ => []

/-- Whether theme presets of a category may take the place of default ones: the flag of the scope
decides, then that of the root. -/
def mayOverride (tree : Value) (scope : Path) (category : Category) : Bool :=
  match category.override with
  | .always => true
  | .unless path =>
    match tree.solid? (scope ++ path) with
    | some flag => !flag.truthy
    | none =>
      match tree.solid? ("settings" :: path) with
      | some flag => !flag.truthy
      | none => true

/-- Whether an item has a slug that is none of the given ones. -/
def hasFreshSlug (slugs : List Value) (item : Value) : Bool :=
  match item.entryNamed? "slug" with
  | some slug => !slug.sameMember slugs
  | none => false

/-- A collection without the items whose slugs are taken. -/
def withoutSlugs (slugs : List Value) (collection : Value) : Value :=
  match collection with
  | .list items mark =>
    if slugs.isEmpty then .list items mark else .list (items.filter (hasFreshSlug slugs))
  | v => v

/-- The name that the default presets of a scope give to a slug. -/
def defaultName? (tree : Value) (collection : Path) (slug : Value) : Option Value :=
  match tree.at? (collection ++ [Origin.default.name]) with
  | some (.list items _) =>
    match items.find? fun item => item.isMap && (itemSlug item).equals slug with
    | some item => (item.entryNamed? "name").filter fun name => !name.isNull
    | none => none
  | _ => none

/-- The name that an item without any takes from the default preset of its slug. -/
def newName? (tree : Value) (collection : Path) (item : Value) : Option Value :=
  match item with
  | .map es _ =>
    if Entries.contains (.text "name") es then none
    else defaultName? tree collection (itemSlug item)
  | _ => none

/-- An item with the name of the default preset of its slug, if it has none. -/
def withDefaultName (tree : Value) (collection : Path) (item : Value) : Value :=
  match newName? tree collection item with
  | some name => item.onMap (Entries.insert (.text "name") name)
  | none => item

/-- A collection whose items have names from the default presets. -/
def withDefaultNames (tree : Value) (collection : Path) (content : Value) : Value :=
  match content with
  | .list items mark => .list (items.map (withDefaultName tree collection)) mark
  | v => v

/-- A list of default presets gives a name to a slug: the first of them that is a mapping of an
equal slug has that name, and it is not null. -/
inductive GivesName (tree : Value) (collection : Path) (slug name : Value) : Prop
  | first {earlier later : List Value} {preset : Value} {mark : Option Mark}
      (hlist : tree.at? (collection ++ [Origin.default.name]) =
        some (.list (earlier ++ preset :: later) mark))
      (hearlier : ∀ other ∈ earlier, other.isMap = true → (itemSlug other).equals slug = false)
      (hmap : preset.isMap = true) (hslug : (itemSlug preset).equals slug = true)
      (hname : preset.entryNamed? "name" = some name) (hnull : name.isNull = false)

/-- An item, and the item that stands in its place once it has taken a name from the default
presets. -/
inductive TakesName (tree : Value) (collection : Path) : Value → Value → Prop
  | other {item : Value} (hmap : item.isMap = false) : TakesName tree collection item item
  /-- An item that has a name keeps it, even if it is null. -/
  | named {es : Entries} {mark : Option Mark}
      (hthere : Entries.contains (.text "name") es = true) :
      TakesName tree collection (.map es mark) (.map es mark)
  | nameless {es : Entries} {mark : Option Mark}
      (hnew : Entries.contains (.text "name") es = false)
      (hnone : ∀ name, ¬ GivesName tree collection (itemSlug (.map es mark)) name) :
      TakesName tree collection (.map es mark) (.map es mark)
  | taken {es : Entries} {mark : Option Mark} {name : Value}
      (hnew : Entries.contains (.text "name") es = false)
      (hname : GivesName tree collection (itemSlug (.map es mark)) name) :
      TakesName tree collection (.map es mark) (.map (Entries.insert (.text "name") name es) mark)

section

variable {tree : Value} {collection : Path} {slug name item item' : Value}

/-- **The name of a slug** is that of the first default preset of an equal slug. -/
theorem defaultName?_eq_some_iff :
    defaultName? tree collection slug = some name ↔ GivesName tree collection slug name := by
  constructor
  · intro h
    unfold defaultName? at h
    split at h
    next items mark hlist =>
      split at h
      next preset hfind =>
        obtain ⟨hpreset, earlier, later, rfl, hearlier⟩ := List.find?_eq_some_iff_append.mp hfind
        obtain ⟨hmap, hslug⟩ := Bool.and_eq_true_iff.mp hpreset
        obtain ⟨hname, hnull⟩ := Option.filter_eq_some_iff.mp h
        refine .first hlist (fun other hother hother' => ?_) hmap hslug hname (by simpa using hnull)
        simpa [hother'] using hearlier other hother
      next => cases h
    next => cases h
  · rintro @⟨earlier, later, preset, mark, hlist, hearlier, hmap, hslug, hname, hnull⟩
    have hfind : (earlier ++ preset :: later).find? (fun item =>
        item.isMap && (itemSlug item).equals slug) = some preset := by
      refine List.find?_eq_some_iff_append.mpr
        ⟨by rw [hmap, hslug, Bool.and_self], earlier, later, rfl, fun other hother => ?_⟩
      cases hother' : other.isMap with
      | false => rfl
      | true => rw [hearlier other hother hother', Bool.and_false, Bool.not_false]
    rw [defaultName?, hlist]
    dsimp only
    rw [hfind]
    exact Option.filter_eq_some_iff.mpr ⟨hname, by rw [hnull, Bool.not_false]⟩

theorem defaultName?_eq_none_iff :
    defaultName? tree collection slug = none ↔ ∀ name, ¬ GivesName tree collection slug name := by
  rw [Option.eq_none_iff_forall_ne_some]
  exact forall_congr' fun _ => not_congr defaultName?_eq_some_iff

theorem takesName_withDefaultName (tree : Value) (collection : Path) (item : Value) :
    TakesName tree collection item (withDefaultName tree collection item) := by
  cases item with
  | map es mark =>
    cases hthere : Entries.contains (.text "name") es with
    | true =>
      rw [withDefaultName, newName?, if_pos hthere]
      exact .named hthere
    | false =>
      rw [withDefaultName, newName?, hthere, if_neg Bool.false_ne_true]
      split
      next name hname => exact .taken hthere (defaultName?_eq_some_iff.mp hname)
      next hnone => exact .nameless hthere (defaultName?_eq_none_iff.mp hnone)
  | _ => exact .other rfl

theorem TakesName.withDefaultName_eq (h : TakesName tree collection item item') :
    withDefaultName tree collection item = item' := by
  cases h with
  | other hmap =>
    cases item with
    | map es mark => cases hmap
    | _ => rfl
  | named hthere => rw [withDefaultName, newName?, if_pos hthere]
  | nameless hnew hnone =>
    rw [withDefaultName, newName?, hnew, if_neg Bool.false_ne_true,
      defaultName?_eq_none_iff.mpr hnone]
  | taken hnew hname =>
    rw [withDefaultName, newName?, hnew, if_neg Bool.false_ne_true,
      defaultName?_eq_some_iff.mpr hname]
    rfl

/-- **What becomes of an item** that may take a name: a mapping without a name takes that of the
first default preset of an equal slug, and every other item stays as it is. -/
theorem withDefaultName_eq_iff :
    withDefaultName tree collection item = item' ↔ TakesName tree collection item item' := by
  refine ⟨fun h => ?_, TakesName.withDefaultName_eq⟩
  rw [← h]
  exact takesName_withDefaultName tree collection item

/-- **What becomes of a list** whose items may take names: it is as long as it was, and every item
of it has taken its name. -/
theorem withDefaultNames_list_iff {items named : List Value} {mark : Option Mark} :
    withDefaultNames tree collection (.list items mark) = .list named mark ↔
      items.length = named.length ∧
        ∀ pair ∈ items.zip named, TakesName tree collection pair.1 pair.2 := by
  rw [withDefaultNames, Value.list.injEq, eq_self, and_true]
  induction items generalizing named with
  | nil => simp [eq_comm]
  | cons item items ih =>
    cases named with
    | nil => simp
    | cons item' named =>
      rw [List.map_cons, List.cons.injEq, withDefaultName_eq_iff, ih, List.zip_cons_cons,
        List.forall_mem_cons, List.length_cons, List.length_cons, Nat.add_right_cancel_iff]
      exact and_left_comm

end

/-! ### Taking over -/

/-- What a collection of an origin becomes in the tree it is merged into. -/
def mergedCollection (tree : Value) (scope : Path) (slugs : List Value) (category : Category)
    (origin : Origin) (content : Value) : Value :=
  if origin = .theme then
    let named := if category.inheritsNames then
      withDefaultNames tree (scope ++ category.path) content else content
    if mayOverride tree scope category then named else withoutSlugs slugs named
  else content

/-- Takes over the collection of a category and an origin at a scope. -/
def takeCollection (incoming : Value) (scope : Path) (slugs : Category → List Value)
    (category : Category) (tree : Value) (origin : Origin) : Value :=
  let path := scope ++ category.path ++ [origin.name]
  match incoming.solid? path with
  | some content =>
    tree.set path (mergedCollection tree scope (slugs category) category origin content)
  | none => tree

/-- Takes over the collections of a category at a scope. -/
def takeCategory (incoming : Value) (scope : Path) (slugs : Category → List Value) (tree : Value)
    (category : Category) : Value :=
  Origin.all.foldl (takeCollection incoming scope slugs category) tree

/-- Takes over the units of spacing at a scope. -/
def takeUnits (incoming : Value) (scope : Path) (tree : Value) : Value :=
  let path := scope ++ ["spacing", "units"]
  match incoming.solid? path with
  | some units => tree.set path units
  | none => tree

/-- Takes over what a scope replaces whole. `rootSlugs` are the slugs of the default presets at the
root before any scope was reached. -/
def takeScope (incoming : Value) (rootSlugs : Category → List Value) (tree : Value)
    (scope : Path) : Value :=
  let slugs := fun category => rootSlugs category ++ defaultSlugs tree scope category
  Category.all.foldl (takeCategory incoming scope slugs) (takeUnits incoming scope tree)

/-- The tree of a theme with that of another merged into it. -/
def mergeTrees (base incoming : Value) : Value :=
  let tree := base.overlaid incoming
  ((settingScopes [] incoming).map (·.path)).foldl
    (takeScope incoming (defaultSlugs tree ["settings"])) tree

/-- A theme with another merged into it; its origin stays. -/
def merge (theme incoming : Theme) : Theme :=
  { theme with tree := mergeTrees theme.tree incoming.tree }

end Theme

end ThemeSheet
