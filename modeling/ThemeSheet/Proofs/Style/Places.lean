import ThemeSheet.Proofs.Schema.Places

/-!
# Places of styles

Styles stand at the root, at its elements, at blocks and at the elements of blocks. Below a place, a
path that begins neither with the blocks nor with the elements stays in the styles of that place, so
from the whole path both the place and what is below it can be told, as it can for settings.

## Main definitions

* `StylePlace`, the paths at which styles may stand;
* `Path.isOwnStyle`, of a path that stays in the styles of its place.

## Main results

* `stylePlace_of_mem_styleScopes`: scopes of styles are such places;
* `StylePlace.append_inj`: places are told from own paths.
-/

namespace ThemeSheet

open ThemeSheet.Path (Diverges)

/-- The paths at which styles may stand, for all names of elements and blocks. -/
inductive StylePlace : Path → Prop
  | root : StylePlace ["styles"]
  | element (name : String) : StylePlace ["styles", "elements", name]
  | block (name : String) : StylePlace ["styles", "blocks", name]
  | blockElement (name element : String) :
    StylePlace ["styles", "blocks", name, "elements", element]

theorem StylePlace.ne_nil {place : Path} (h : StylePlace place) : place ≠ [] := by
  cases h <;> exact List.cons_ne_nil _ _

theorem StylePlace.head?_append {place : Path} (h : StylePlace place) (q : Path) :
    (place ++ q).head? = some "styles" := by
  cases h <;> rfl

theorem SettingPlace.head?_append {blocks : List String} {place : Path}
    (h : SettingPlace blocks place) (q : Path) : (place ++ q).head? = some "settings" := by
  cases h <;> rfl

/-- Whether a path below a place stays in the styles of that place. -/
def Path.isOwnStyle : Path → Bool
  | [] => false
  | name :: _ => decide (name ≠ "blocks" ∧ name ≠ "elements")

theorem Path.isOwnStyle_iff {p : Path} : p.isOwnStyle = true ↔
    ∃ name rest, p = name :: rest ∧ name ∉ ["elements", "blocks"] := by
  cases p with
  | nil => simp [isOwnStyle]
  | cons name rest =>
    rw [isOwnStyle, decide_eq_true_eq]
    simp [and_comm]

/-- All places of styles are below one name. -/
theorem StylePlace.exists_eq_cons {place : Path} (h : StylePlace place) :
    ∃ rest, place = "styles" :: rest := by
  cases h <;> exact ⟨_, rfl⟩

/-- **A place is told from its own paths.** -/
theorem StylePlace.append_inj {place place' q q' : Path} (h : StylePlace place)
    (h' : StylePlace place') (hq : q.isOwnStyle = true) (hq' : q'.isOwnStyle = true)
    (heq : place ++ q = place' ++ q') : place = place' ∧ q = q' := by
  match q, q' with
  | a :: q, b :: q' =>
    simp only [Path.isOwnStyle, decide_eq_true_eq] at hq hq'
    cases h <;> cases h' <;> simp_all

/-- **The scopes of styles are places of styles.** -/
theorem stylePlace_of_mem_styleScopes {table : BlockTable} {tree : Value} {scope : Scope}
    (h : scope ∈ styleScopes table tree) : StylePlace scope.path := by
  rw [styleScopes] at h
  split at h
  next es mark =>
    rcases List.mem_cons.mp h with rfl | h
    · exact .root
    rcases List.mem_append.mp h with h | h
    · rw [Scope.ofRootElements] at h
      split at h
      · obtain ⟨name, -, rfl⟩ := List.mem_map.mp h
        exact .element name
      · cases h
    · rw [Scope.ofStyledBlocks] at h
      split at h
      · obtain ⟨⟨k, v⟩, -, h⟩ := List.mem_flatMap.mp h
        cases k with
        | text name =>
          rcases List.mem_cons.mp h with rfl | h
          · exact .block name
          · split at h
            · obtain ⟨element, -, rfl⟩ := List.mem_map.mp h
              exact .blockElement name element
            · cases h
        | _ => cases h
      · cases h
  next => cases h

end ThemeSheet
