import ThemeSheet.Proofs.Style.Declarations
import ThemeSheet.Theme.Stylesheet

/-!
# The rows of the table of properties

What the styles at a place of a tree declare is told here from the tree alone. A row of the table of
properties declares the value at its path below the place, if that is a number, a moment in time or
a text that is not empty; the row of the block gap does so only where the settings of the root have
a block gap. The declarations come in the order of the table.

## Main definitions

* `Value.IsDeclarable`, of values that make a declaration;
* `IsRow`, `IsDeclared`: the rows that declare a value, and the declarations of these rows.

## Main results

* `isDeclared_of_styleDeclarations`: the declarations are those of the rows;
* `exists_declarations_iff`: when they can be made.
-/

namespace ThemeSheet

variable {tree v : Value} {place : Path} {p : Property} {ds : List Declaration} {theme : Theme}

/-! ### Rows -/

/-- A value that makes a declaration: a number, a moment in time, or a text that is not empty. -/
def Value.IsDeclarable : Value → Prop
  | .int _ | .float _ | .moment _ => True
  | .text s => s ≠ ""
  | .null | .bool _ | .list _ _ | .map _ _ => False

theorem isMissing_eq_false_iff : isMissing v = false ↔ v.IsDeclarable := by
  cases v with
  | text s => simp [isMissing, Value.IsDeclarable]
  | _ => simp [isMissing, Value.IsDeclarable]

/-- A row of the table of properties that declares a value in the styles at a place of a tree. -/
structure IsRow (tree : Value) (place : Path) (p : Property) (v : Value) : Prop where
  listed : p ∈ properties
  /-- The value stands at the path of the row. -/
  found : tree.at? (place ++ p.path) = some v
  declarable : v.IsDeclarable
  /-- The row of the block gap needs a block gap among the settings of the root. -/
  gap : p.path = ["spacing", "blockGap"] →
    ∃ w, tree.at? ["settings", "spacing", "blockGap"] = some w ∧ w.isNull = false

/-- The declarations of the styles at a place of a tree. -/
structure IsDeclared (tree : Value) (place : Path) (ds : List Declaration) : Prop where
  /-- They are in the order of the table of properties. -/
  order : (ds.map (·.name)).Sublist (properties.map (·.name))
  /-- No property is declared twice. -/
  once : (ds.map (·.name)).Nodup
  /-- They are those of the rows. -/
  exact : ∀ d, d ∈ ds ↔ ∃ p v, IsRow tree place p v ∧ d.name = p.name ∧
    cssText (writtenOut v) = .ok d.value

/-! ### The table -/

theorem nodup_properties : (properties.map (·.name)).Nodup := by decide +kernel

/-- The block gap is the only property that a setting decides about. -/
theorem gate?_eq : ∀ p ∈ properties, p.gate? =
    if p.path = ["spacing", "blockGap"] then some ["spacing", "blockGap"] else none := by
  decide +kernel

namespace Theme

/-- The settings of the root are read below their name. -/
theorem at?_settings (theme : Theme) {q : Path} (hq : q ≠ []) :
    theme.settings.at? q = theme.tree.at? ("settings" :: q) := by
  rw [settings, Value.at?_of_ne_nil hq, Value.at?_cons, Value.walk?_cons]
  obtain ⟨name, rest, rfl⟩ := List.exists_cons_of_ne_nil hq
  cases theme.tree.entryNamed? "settings" with
  | none => rfl
  | some v => cases v <;> rfl

/-- The settings allow what has no gate, or a block gap that they have. -/
theorem allowed_settings_iff (hp : p ∈ properties) : p.allowed theme.settings = true ↔
    (p.path = ["spacing", "blockGap"] →
      ∃ w, theme.tree.at? ["settings", "spacing", "blockGap"] = some w ∧ w.isNull = false) := by
  rw [Property.allowed, gate?_eq p hp]
  split
  next hgate =>
    split at hgate
    · cases hgate
    next hpath => exact iff_of_true rfl fun h => absurd h hpath
  next path hgate =>
    split at hgate
    next hpath =>
      cases hgate
      simp only [hpath, true_imp_iff, Option.isSome_iff_exists, Value.solid?_eq_some_iff]
      rw [at?_settings theme (List.cons_ne_nil _ _)]
    · cases hgate

/-- **The rows of a place** are the properties that its styles declare. -/
theorem isRow_iff (hplace : place ≠ []) (hpath : p.path ≠ []) : IsRow theme.tree place p v ↔
    p ∈ properties ∧ (theme.tree.getD place .emptyMap).at? p.path = some v ∧
      p.allowed theme.settings = true ∧ isMissing v = false := by
  rw [Value.at?_getD_emptyMap hplace hpath, isMissing_eq_false_iff]
  constructor
  · intro h
    exact ⟨h.listed, h.found, (allowed_settings_iff h.listed).mpr h.gap, h.declarable⟩
  · rintro ⟨hp, hv, hallowed, hdeclarable⟩
    exact ⟨hp, hv, hdeclarable, (allowed_settings_iff hp).mp hallowed⟩

/-! ### Declarations -/

/-- **The declarations of the styles at a place** are those of its rows. -/
theorem isDeclared_of_styleDeclarations (hplace : place ≠ [])
    (h : styleDeclarations (theme.tree.getD place .emptyMap) theme.settings = .ok ds) :
    IsDeclared theme.tree place ds := by
  have horder := sublist_declarationsOf h
  refine ⟨horder, nodup_properties.sublist horder, fun d => ?_⟩
  rw [mem_styleDeclarations_iff h]
  constructor
  · rintro ⟨p, hp, v, hv, hallowed, hmissing, hname, htext⟩
    exact ⟨p, v, (isRow_iff hplace (properties_path_ne_nil p hp)).mpr ⟨hp, hv, hallowed, hmissing⟩,
      hname, htext⟩
  · rintro ⟨p, v, hrow, hname, htext⟩
    obtain ⟨hp, hv, hallowed, hmissing⟩ :=
      (isRow_iff hplace (properties_path_ne_nil p hrow.listed)).mp hrow
    exact ⟨p, hp, v, hv, hallowed, hmissing, hname, htext⟩

/-- **The declarations of a place can be made** exactly if the values of its rows can be written. -/
theorem exists_declarations_iff (hplace : place ≠ []) :
    (∃ ds, styleDeclarations (theme.tree.getD place .emptyMap) theme.settings = .ok ds) ↔
      ∀ p v, IsRow theme.tree place p v → ∃ text, cssText (writtenOut v) = .ok text := by
  rw [exists_styleDeclarations_iff]
  constructor
  · intro h p v hrow
    obtain ⟨hp, hv, hallowed, hmissing⟩ :=
      (isRow_iff hplace (properties_path_ne_nil p hrow.listed)).mp hrow
    exact h p hp _ (Property.declared?_eq_some_iff.mpr ⟨v, hv, hallowed, hmissing, rfl⟩)
  · intro h p hp v hv
    obtain ⟨w, hw, hallowed, hmissing, rfl⟩ := Property.declared?_eq_some_iff.mp hv
    exact h p w ((isRow_iff hplace (properties_path_ne_nil p hp)).mpr ⟨hp, hw, hallowed, hmissing⟩)

end Theme

end ThemeSheet
