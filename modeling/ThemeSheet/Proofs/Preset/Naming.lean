import ThemeSheet.Proofs.Preset.Safety
import ThemeSheet.Proofs.Text.Markup
import ThemeSheet.Proofs.Tree.Unshared

/-!
# Names of safe presets

A preset is safe to name if its slug and its name go where they are written as they are: the slug
into the name of a class, an identifier or an address, the name into markup. What is recognised as
such is told here character by character.

The name of a class is recognised together with one line break at its end, which is not a character
of class names. So there is a looser notion of class names besides the strict one.

## Main definitions

* `Text.IsClassName`, `Text.IsLooseClassName`, `Text.IsPlainMarkup`;
* `IsSafeAs`, of a preset with a plain name, a slug of some kind and a value that passes;
* `IsKeptOf`, of the presets that are kept of a list.

## Main results

* `isSafeClassName_iff`, `isSafeMarkupText_iff`: what is recognised;
* `isSafeItem_iff`: the items that are safe presets.
-/

namespace ThemeSheet

namespace Text

/-! ### Class names -/

/-- A class name: not empty, and of nothing but ASCII letters, ASCII digits, underscores and
hyphens. -/
def IsClassName (s : String) : Prop :=
  s.toList ≠ [] ∧ ∀ c ∈ s.toList, ('A' ≤ c ∧ c ≤ 'Z') ∨ ('a' ≤ c ∧ c ≤ 'z') ∨
    ('0' ≤ c ∧ c ≤ '9') ∨ c = '_' ∨ c = '-'

instance (s : String) : Decidable (IsClassName s) :=
  @instDecidableAnd _ _ inferInstance (List.decidableBAll _ _)

/-- A class name, or one with a line break after it. -/
def IsLooseClassName (s : String) : Prop :=
  IsClassName s ∨ ∃ name, IsClassName name ∧ s.toList = name.toList ++ ['\n']

/-- No class name ends in a line break. -/
theorem IsClassName.getLast?_ne {s : String} (h : IsClassName s) :
    s.toList.getLast? ≠ some '\n' := by
  intro hlast
  exact absurd (h.2 '\n' (List.mem_of_getLast? hlast)) (by decide)

/-- Apart from the line break at its end, a loose class name is a class name. -/
theorem IsLooseClassName.isClassName {s : String} (h : IsLooseClassName s)
    (hlast : s.toList.getLast? ≠ some '\n') : IsClassName s := by
  refine h.resolve_right ?_
  rintro ⟨name, -, heq⟩
  rw [heq, List.getLast?_concat] at hlast
  exact hlast rfl

theorem isClassChar_iff (c : Char) : isClassChar c = true ↔ ('A' ≤ c ∧ c ≤ 'Z') ∨
    ('a' ≤ c ∧ c ≤ 'z') ∨ ('0' ≤ c ∧ c ≤ '9') ∨ c = '_' ∨ c = '-' := by
  have hranges : isClassChar c = ((decide (c.val ≥ 'A'.val ∧ c.val ≤ 'Z'.val) ||
      (decide (c.val ≥ 'a'.val) && decide (c.val ≤ 'z'.val)) ||
      (decide (c.val ≥ '0'.val) && decide (c.val ≤ '9'.val))) || c == '_' || c == '-') := rfl
  simp only [hranges, Bool.or_eq_true, Bool.and_eq_true, decide_eq_true_eq, beq_iff_eq, Char.le_def,
    ge_iff_le, or_assoc]

theorem isClassName_ofList_iff (cs : List Char) :
    IsClassName (String.ofList cs) ↔ (!cs.isEmpty && cs.all isClassChar) = true := by
  simp only [IsClassName, String.toList_ofList, Bool.and_eq_true, Bool.not_eq_true',
    List.isEmpty_eq_false_iff, List.all_eq_true, isClassChar_iff]

/-! ### Texts in markup -/

/-- A text without the characters that mean something in markup. -/
def IsPlainMarkup (s : String) : Prop := ∀ c ∈ s.toList, c ∉ ['&', '<', '>', '"', '\x27']

instance (s : String) : Decidable (IsPlainMarkup s) := inferInstanceAs (Decidable (∀ c ∈ _, _))

end Text

open Text (IsClassName IsLooseClassName IsPlainMarkup)

/-! ### What is recognised -/

/-- **Slugs that are recognised** are the loose class names. -/
theorem isSafeClassName_iff {v : Value} :
    isSafeClassName v = true ↔ ∃ s, v = .text s ∧ IsLooseClassName s := by
  cases v with
  | text s =>
    simp only [Value.text.injEq, exists_eq_left', isSafeClassName]
    by_cases hlast : s.toList.getLast? = some '\n'
    · obtain ⟨cs, hcs⟩ : ∃ cs, s.toList = cs ++ ['\n'] := List.getLast?_eq_some_iff.mp hlast
      rw [if_pos hlast, hcs, List.dropLast_concat, ← Text.isClassName_ofList_iff, IsLooseClassName]
      constructor
      · exact fun h => .inr ⟨_, h, by rw [hcs, String.toList_ofList]⟩
      · rintro (h | ⟨name, h, heq⟩)
        · exact absurd hlast h.getLast?_ne
        · rw [hcs, List.append_cancel_right_eq] at heq
          rwa [heq, String.ofList_toList]
    · rw [if_neg hlast, ← Text.isClassName_ofList_iff, String.ofList_toList]
      exact ⟨.inl, fun h => h.isClassName hlast⟩
  | _ => simp [isSafeClassName]

/-- **Names that are recognised** are the plain texts. -/
theorem isSafeMarkupText_iff {v : Value} :
    isSafeMarkupText v = true ↔ ∃ s, v = .text s ∧ IsPlainMarkup s := by
  cases v with
  | text s =>
    simp only [Value.text.injEq, exists_eq_left', isSafeMarkupText, decide_eq_true_eq]
    rw [IsPlainMarkup, ← Text.flatMap_markupChar_eq_self_iff, Text.escapeMarkup]
    constructor
    · intro h
      rw [← String.toList_ofList (l := s.toList.flatMap _), h]
    · intro h
      rw [h, String.ofList_toList]
  | _ => simp [isSafeMarkupText]

/-! ### Safe presets -/

/-- A preset whose slug is of some kind, whose name is plain and whose value passes a check for
every property of its category. -/
structure IsSafeAs (isSlug : String → Prop) (check : SafetyCheck) (category : Category)
    (preset : Entries) : Prop where
  slug : ∃ s, Entries.named? "slug" preset = some (.text s) ∧ isSlug s
  name : ∃ s, Entries.named? "name" preset = some (.text s) ∧ IsPlainMarkup s
  value : ∃ v, category.value preset = .ok v ∧
    ∀ property ∈ category.targets, check property v = .ok true

section SafeItems

variable {check : SafetyCheck} {category : Category} {preset : Entries} {v : Value}

/-- What passes for each of some properties passes for all of them. -/
theorem passesAll_iff {targets : List String} : passesAll check v targets = .ok true ↔
    ∀ property ∈ targets, check property v = .ok true := by
  refine ⟨passesAll_eq_true, fun h => ?_⟩
  induction targets with
  | nil => rfl
  | cons property targets ih =>
    obtain ⟨hfirst, hrest⟩ := List.forall_mem_cons.mp h
    rw [passesAll, hfirst]
    exact ih hrest

/-- An entry that is there or null is a text exactly if it is there. -/
theorem getD_null_eq_text_iff {o : Option Value} {s : String} :
    o.getD .null = .text s ↔ o = some (.text s) := by
  cases o <;> simp

/-- **The items that are safe presets** are the mappings with a plain name, a slug that is a loose
class name and a value that passes. -/
theorem isSafeItem_iff {item : Value} (htree : item.IsTree) :
    Theme.isSafeItem check category item = .ok true ↔
      ∃ preset, item = .map preset ∧ IsSafeAs IsLooseClassName check category preset := by
  cases item with
  | map preset mark =>
    obtain ⟨rfl, -⟩ := Value.isTree_map.mp htree
    have hnames : (isSafeMarkupText ((Entries.named? "name" preset).getD .null) &&
        isSafeClassName ((Entries.named? "slug" preset).getD .null)) = true ↔
          (∃ s, Entries.named? "name" preset = some (.text s) ∧ IsPlainMarkup s) ∧
            ∃ s, Entries.named? "slug" preset = some (.text s) ∧ IsLooseClassName s := by
      rw [Bool.and_eq_true, isSafeMarkupText_iff, isSafeClassName_iff]
      simp only [getD_null_eq_text_iff]
    simp only [Value.map.injEq, and_true, exists_eq_left']
    constructor
    · intro h
      obtain ⟨value, hvalue, h⟩ := Result.exists_of_bind h
      rw [isSafePreset] at h
      split at h
      next hboth =>
        obtain ⟨hname, hslug⟩ := hnames.mp hboth
        exact ⟨hslug, hname, value, hvalue, passesAll_iff.mp h⟩
      next => cases h
    · rintro ⟨hslug, hname, value, hvalue, hpasses⟩
      rw [Theme.isSafeItem, hvalue]
      show isSafePreset check category.targets preset value = _
      rw [isSafePreset, if_pos (hnames.mpr ⟨hname, hslug⟩), passesAll_iff.mpr hpasses]
  | _ => simp [Theme.isSafeItem]

end SafeItems

/-- What is kept of a list: in their order, the items that are presets of a kind, and no others. -/
def IsKeptOf (isSlug : String → Prop) (check : SafetyCheck) (category : Category)
    (items kept : List Value) : Prop :=
  ∃ keep : Value → Bool, kept = items.filter keep ∧ ∀ item ∈ items, (keep item = true ↔
    ∃ preset, item = .map preset ∧ IsSafeAs isSlug check category preset)

/-- Where no slug ends in a line break, those with class names are kept. -/
theorem IsKeptOf.strict {check : SafetyCheck} {category : Category} {items kept : List Value}
    (h : IsKeptOf IsLooseClassName check category items kept)
    (hlast : ∀ preset s, Value.map preset ∈ items →
      Entries.named? "slug" preset = some (.text s) → s.toList.getLast? ≠ some '\n') :
    IsKeptOf IsClassName check category items kept := by
  obtain ⟨keep, hkept, hkeep⟩ := h
  refine ⟨keep, hkept, fun item hitem => (hkeep item hitem).trans ?_⟩
  refine exists_congr fun preset => and_congr_right ?_
  rintro rfl
  constructor
  · rintro ⟨⟨s, hs, hslug⟩, hname, hvalue⟩
    exact ⟨⟨s, hs, hslug.isClassName (hlast preset s hitem hs)⟩, hname, hvalue⟩
  · rintro ⟨⟨s, hs, hslug⟩, hname, hvalue⟩
    exact ⟨⟨s, hs, .inl hslug⟩, hname, hvalue⟩

end ThemeSheet
