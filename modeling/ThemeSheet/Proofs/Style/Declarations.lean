import ThemeSheet.Css.Safety
import ThemeSheet.Proofs.Results
import ThemeSheet.Proofs.Tree.Paths
import ThemeSheet.Style.Property

/-!
# Declarations and what they are made of

Every declaration of the styles of a scope is made of the value that stands at the path of its
property. So if a check is passed by what would be declared of the values that are there, the
declarations can be made, and all of them pass.

## Main definitions

* `Property.Passes`, of a value of which the declaration passes a check.

## Main results

* `Property.declaration?_eq_some_iff`, `mem_styleDeclarations_iff`: what is declared;
* `sublist_declarationsOf`: the order of declarations;
* `exists_styleDeclarations_iff`: when declarations can be made;
* `exists_styleDeclarations`: declarations of values that pass a check.
-/

namespace ThemeSheet

variable {check : SafetyCheck} {styles settings v : Value} {p : Property} {d : Declaration}

/-! ### Values as they are declared -/

/-- A value as it is declared: with a reference written out. -/
def writtenOut : Value → Value
  | .text s => .text (expandReference s)
  | v => v

theorem propertyValue_eq (styles : Value) (path : Path) :
    propertyValue styles path = writtenOut (styles.getD path (.text "")) := by
  rw [propertyValue]
  cases styles.getD path (.text "") <;> rfl

theorem isEmpty_expandReference (s : String) : (expandReference s).isEmpty = s.isEmpty := by
  rw [expandReference]
  split
  next name hname =>
    have hs : s ≠ "" := by
      rintro rfl
      cases hname
    have hwritten : "var(--wp--" ++ String.ofList (Text.replaceAll ['|'] ['-', '-'] name) ++ ")" ≠
        "" := by simp
    rw [Bool.eq_iff_iff, String.isEmpty_iff, String.isEmpty_iff]
    exact iff_of_false hwritten hs
  next => rfl

/-- A value is missing with a reference written out exactly if it is so as it stands. -/
theorem isMissing_writtenOut (v : Value) : isMissing (writtenOut v) = isMissing v := by
  cases v with
  | text s => exact isEmpty_expandReference s
  | _ => rfl

/-- Only a value that is no container is declared. -/
theorem isMap_of_isMissing (h : isMissing (writtenOut v) = false) : v.isMap = false := by
  cases v with
  | map es mark => cases h
  | _ => rfl

/-- The declaration of a value of a property can be made, and it passes a check. -/
def Property.Passes (check : SafetyCheck) (p : Property) (v : Value) : Prop :=
  ∃ text, cssText (writtenOut v) = .ok text ∧ check p.name (.text text) = .ok true

/-! ### One property -/

/-- **What a property declares** is the value at its path, with a reference written out, if the
settings allow it and it is not missing. -/
theorem Property.declared?_eq_some_iff : p.declared? styles settings = some v ↔
    ∃ w, styles.at? p.path = some w ∧ p.allowed settings = true ∧ isMissing w = false ∧
      v = writtenOut w := by
  unfold Property.declared?
  dsimp only
  rw [propertyValue_eq, Value.getD, isMissing_writtenOut]
  constructor
  · intro h
    split at h
    next hdeclared =>
      cases h
      rw [Bool.and_eq_true, Bool.not_eq_true'] at hdeclared
      cases hw : styles.at? p.path with
      | none =>
        rw [hw] at hdeclared
        cases hdeclared.2
      | some w =>
        rw [hw] at hdeclared
        exact ⟨w, rfl, hdeclared.1, hdeclared.2, rfl⟩
    next => cases h
  · rintro ⟨w, hw, hallowed, hmissing, rfl⟩
    rw [hw, Option.getD_some, hallowed, hmissing]
    rfl

/-- What a property declares stands at its path. -/
theorem Property.exists_of_declared? (h : p.declared? styles settings = some v) :
    ∃ w, styles.at? p.path = some w ∧ v = writtenOut w ∧ isMissing v = false := by
  obtain ⟨w, hw, -, hmissing, rfl⟩ := declared?_eq_some_iff.mp h
  exact ⟨w, hw, rfl, by rwa [isMissing_writtenOut]⟩

/-- **The declaration of a property.** -/
theorem Property.declaration?_eq_some_iff : p.declaration? styles settings = .ok (some d) ↔
    ∃ w, styles.at? p.path = some w ∧ p.allowed settings = true ∧ isMissing w = false ∧
      d.name = p.name ∧ cssText (writtenOut w) = .ok d.value := by
  rw [declaration?]
  constructor
  · intro h
    cases hv : p.declared? styles settings with
    | none => rw [hv] at h; cases h
    | some v =>
      rw [hv] at h
      obtain ⟨text, htext, h⟩ := Result.exists_of_bind h
      cases h
      obtain ⟨w, hw, hallowed, hmissing, rfl⟩ := declared?_eq_some_iff.mp hv
      exact ⟨w, hw, hallowed, hmissing, rfl, htext⟩
  · rintro ⟨w, hw, hallowed, hmissing, hname, htext⟩
    have hdeclared : p.declared? styles settings = some (writtenOut w) :=
      declared?_eq_some_iff.mpr ⟨w, hw, hallowed, hmissing, rfl⟩
    rw [hdeclared]
    dsimp only
    rw [htext, ← hname]
    rfl

/-- A property of which all values pass a check declares nothing, or what passes it. -/
theorem Property.exists_declaration?
    (h : ∀ v, styles.at? p.path = some v → v.isMap = false → p.Passes check v)
    (settings : Value) : ∃ o, p.declaration? styles settings = .ok o ∧
      ∀ d, o = some d → check d.name (.text d.value) = .ok true := by
  rw [Property.declaration?]
  cases hv : p.declared? styles settings with
  | none => exact ⟨none, rfl, by simp⟩
  | some v =>
    obtain ⟨w, hw, rfl, hmissing⟩ := Property.exists_of_declared? hv
    obtain ⟨text, htext, hcheck⟩ := h w hw (isMap_of_isMissing hmissing)
    refine ⟨some ⟨p.name, text⟩, ?_, ?_⟩
    · dsimp only
      rw [htext]
      rfl
    · rintro d hd
      cases hd
      exact hcheck

/-! ### Declarations without settings -/

/-- Without settings a property is declared that no setting decides about. -/
theorem Property.allowed_null (p : Property) : p.allowed .null = p.gate?.isNone := by
  rw [allowed]
  cases p.gate? with
  | none => rfl
  | some path => cases path <;> rfl

/-- **What is declared without settings.** -/
theorem Property.declaration?_null : p.declaration? styles .null = .ok (some d) ↔
    ∃ v, styles.at? p.path = some v ∧ p.gate? = none ∧ isMissing v = false ∧ d.name = p.name ∧
      cssText (writtenOut v) = .ok d.value := by
  rw [declaration?_eq_some_iff]
  simp only [allowed_null, Option.isNone_iff_eq_none]

/-- What is declared is a matter of what stands at the path of the property. -/
theorem Property.declaration?_congr {styles' : Value} (h : styles.at? p.path = styles'.at? p.path)
    (settings : Value) : p.declaration? styles settings = p.declaration? styles' settings := by
  rw [declaration?, declaration?, declared?, declared?, propertyValue_eq, propertyValue_eq,
    Value.getD, Value.getD, h]

/-- Where no value stands, nothing is declared. -/
theorem Property.declaration?_eq_none (h : ∀ v, styles.at? p.path = some v → v.isMap = true)
    (settings : Value) : p.declaration? styles settings = .ok none := by
  rw [declaration?]
  cases hv : p.declared? styles settings with
  | none => rfl
  | some v =>
    obtain ⟨w, hw, rfl, hmissing⟩ := exists_of_declared? hv
    have hmap := isMap_of_isMissing hmissing
    rw [h w hw] at hmap
    cases hmap

/-! ### All properties -/

/-- **The declarations of styles** are those of the properties. -/
theorem mem_styleDeclarations_iff {ds : List Declaration}
    (h : styleDeclarations styles settings = .ok ds) : d ∈ ds ↔ ∃ p ∈ properties, ∃ v,
      styles.at? p.path = some v ∧ p.allowed settings = true ∧ isMissing v = false ∧
        d.name = p.name ∧ cssText (writtenOut v) = .ok d.value := by
  obtain ⟨found, hfound, h⟩ := Result.exists_of_bind h
  cases h
  simp only [List.mem_filterMap, id_eq, exists_eq_right, Result.mem_mapM_iff hfound,
    Property.declaration?_eq_some_iff]

/-- **Where a declaration comes from**: a value at the path of its property. -/
theorem exists_of_mem_styleDeclarations {ds : List Declaration}
    (h : styleDeclarations styles settings = .ok ds) (hd : d ∈ ds) :
    ∃ p ∈ properties, ∃ v, styles.at? p.path = some v ∧ v.isMap = false ∧ d.name = p.name ∧
      cssText (writtenOut v) = .ok d.value := by
  obtain ⟨p, hp, v, hv, -, hmissing, hname, htext⟩ := (mem_styleDeclarations_iff h).mp hd
  exact ⟨p, hp, v, hv, isMap_of_isMissing (by rwa [isMissing_writtenOut]), hname, htext⟩

/-- Declarations come in the order of the table of properties, one for each at most. -/
theorem sublist_declarationsOf {table : List Property} {ds : List Declaration}
    (h : declarationsOf table styles settings = .ok ds) :
    (ds.map (·.name)).Sublist (table.map (·.name)) := by
  obtain ⟨found, hfound, heq⟩ := Result.exists_of_bind h
  cases heq
  clear h
  induction table generalizing found with
  | nil =>
    cases hfound
    exact List.nil_sublist _
  | cons p table ih =>
    rw [List.mapM_cons] at hfound
    obtain ⟨o, ho, hfound⟩ := Result.exists_of_bind hfound
    obtain ⟨others, hothers, hfound⟩ := Result.exists_of_bind hfound
    cases hfound
    have hrest := ih others hothers
    cases o with
    | none => exact hrest.cons _
    | some d =>
      obtain ⟨w, -, -, -, hname, -⟩ := Property.declaration?_eq_some_iff.mp ho
      rw [List.map_cons, ← hname]
      exact hrest.cons_cons _

/-- The declarations of styles can be made exactly if all that is declared can be written. -/
theorem exists_styleDeclarations_iff : (∃ ds, styleDeclarations styles settings = .ok ds) ↔
    ∀ p ∈ properties, ∀ v, p.declared? styles settings = some v → ∃ text, cssText v = .ok text := by
  constructor
  · rintro ⟨ds, h⟩ p hp v hv
    obtain ⟨found, hfound, -⟩ := Result.exists_of_bind h
    obtain ⟨o, -, ho⟩ := Result.exists_of_mapM hfound hp
    rw [Property.declaration?, hv] at ho
    obtain ⟨text, htext, -⟩ := Result.exists_of_bind ho
    exact ⟨text, htext⟩
  · intro h
    have hone : ∀ p ∈ properties, ∃ o, p.declaration? styles settings = .ok o := by
      intro p hp
      rw [Property.declaration?]
      cases hv : p.declared? styles settings with
      | none => exact ⟨none, rfl⟩
      | some v =>
        obtain ⟨text, htext⟩ := h p hp v hv
        exact ⟨some ⟨p.name, text⟩, by dsimp only; rw [htext]; rfl⟩
    obtain ⟨found, hfound⟩ := Result.exists_mapM hone
    exact ⟨found.filterMap id, by rw [styleDeclarations, declarationsOf, hfound]; rfl⟩

/-- **Declarations of values that pass a check** can be made, and all of them pass. -/
theorem exists_styleDeclarations
    (h : ∀ p ∈ properties, ∀ v, styles.at? p.path = some v → v.isMap = false → p.Passes check v)
    (settings : Value) : ∃ ds, styleDeclarations styles settings = .ok ds ∧
      ∀ d ∈ ds, check d.name (.text d.value) = .ok true := by
  have hone : ∀ p ∈ properties, ∃ o, p.declaration? styles settings = .ok o := by
    intro p hp
    obtain ⟨o, ho, -⟩ := Property.exists_declaration? (h p hp) settings
    exact ⟨o, ho⟩
  obtain ⟨found, hfound⟩ := Result.exists_mapM hone
  refine ⟨found.filterMap id, ?_, fun d hd => ?_⟩
  · rw [styleDeclarations, declarationsOf, hfound]
    rfl
  · obtain ⟨o, ho, hod⟩ := List.mem_filterMap.mp hd
    obtain ⟨p, hp, hdeclaration⟩ := Result.exists_of_mem_mapM hfound ho
    obtain ⟨o', ho', hpass⟩ := Property.exists_declaration? (h p hp) settings
    rw [hdeclaration] at ho'
    cases ho'
    exact hpass d hod

/-! ### The table of properties -/

theorem properties_path_ne_nil : ∀ p ∈ properties, p.path ≠ [] := by
  decide

/-- Every property has a path of its own. -/
theorem properties_path_inj : ∀ p ∈ properties, ∀ p' ∈ properties, p.path = p'.path → p = p' := by
  decide +kernel

end ThemeSheet
