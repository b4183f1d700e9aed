import ThemeSheet.Preset.Category
import ThemeSheet.Proofs.Text.Occurrences
import ThemeSheet.Slug.Letter

/-!
# Names of custom properties and classes

The template of a category's custom property ends in the placeholder, so the name of the custom
property of a slug is a stem of the category with the slug behind it. No stem is a beginning of
another one. So the category and the slug can be told from the name, and a name that begins with a
stem belongs to the category of that stem. The templates of classes have the placeholder behind one
and the same beginning.

## Main definitions

* `Category.stem`.

## Main results

* `Category.fillSlug_customProperty`, `Category.eq_of_stem_prefix`, `Category.customProperty_inj`;
* `Category.fillSlug_class`.
-/

namespace ThemeSheet.Category

variable {category other : Category} {slug slug' : String}

/-- What the names of all custom properties of a category begin with. -/
def stem (category : Category) : String := fillSlug category.customProperty ""

/-- The placeholder stands at the end of the template, and nowhere before. -/
theorem customProperty_eq (category : Category) :
    category.customProperty.toList = category.stem.toList ++ slugPlaceholder.toList ∧
      Text.occursIn slugPlaceholder.toList
        (category.stem.toList ++ slugPlaceholder.toList.dropLast) = false := by
  cases category <;> decide +kernel

/-- **The name of a custom property** is the stem of its category with the slug behind it. -/
theorem fillSlug_customProperty (category : Category) (slug : String) :
    fillSlug category.customProperty slug = category.stem ++ slug := by
  obtain ⟨htemplate, hfirst⟩ := customProperty_eq category
  have hreplace := Text.replaceAll_append (by decide +kernel) hfirst slug.toList []
  rw [List.append_nil] at hreplace
  rw [fillSlug, htemplate, hreplace]
  simp [Text.replaceAll, Text.replaceFrom]

/-- No stem is a beginning of another one. -/
theorem eq_of_stem_prefix_stem :
    ∀ {category other : Category}, category.stem.toList <+: other.stem.toList →
      category = other := by
  have hall : ∀ a ∈ all, ∀ b ∈ all, a.stem.toList <+: b.stem.toList → a = b := by
    decide +kernel
  exact fun {a b} => hall a a.mem_all b b.mem_all

/-- **A name that begins with a stem belongs to the category of that stem.** -/
theorem eq_of_stem_prefix
    (h : category.stem.toList <+: (fillSlug other.customProperty slug).toList) :
    category = other := by
  rw [fillSlug_customProperty, String.toList_append] at h
  have hother := List.prefix_append other.stem.toList slug.toList
  rcases Nat.le_total category.stem.toList.length other.stem.toList.length with hle | hle
  · exact eq_of_stem_prefix_stem (List.prefix_of_prefix_length_le h hother hle)
  · exact (eq_of_stem_prefix_stem (List.prefix_of_prefix_length_le hother h hle)).symm

/-- **Different categories and different slugs have different custom properties.** -/
theorem customProperty_inj
    (h : fillSlug category.customProperty slug = fillSlug other.customProperty slug') :
    category = other ∧ slug = slug' := by
  have hstem : category.stem.toList <+: (fillSlug other.customProperty slug').toList := by
    rw [← h, fillSlug_customProperty, String.toList_append]
    exact List.prefix_append _ _
  obtain rfl := eq_of_stem_prefix hstem
  rw [fillSlug_customProperty, fillSlug_customProperty] at h
  exact ⟨rfl, String.append_right_inj _ |>.mp h⟩

/-! ### Classes -/

/-- The placeholder stands once in the template of a class. -/
theorem classTemplate_eq {entry : String × String} (h : entry ∈ category.classes) :
    ∃ ending, entry.1.toList = ".has-".toList ++ slugPlaceholder.toList ++ ending ∧
      Text.occursIn slugPlaceholder.toList ending = false ∧
        ∀ c ∈ ending, Slug.isSmall c = true ∨ c = '-' := by
  have hall : ∀ category ∈ all, ∀ entry ∈ category.classes,
      entry.1.toList = ".has-".toList ++ slugPlaceholder.toList ++ entry.1.toList.drop 10 ∧
        Text.occursIn slugPlaceholder.toList (entry.1.toList.drop 10) = false ∧
          (entry.1.toList.drop 10).all (fun c => Slug.isSmall c || c == '-') = true := by
    decide +kernel
  obtain ⟨htemplate, hnone, hchars⟩ := hall category category.mem_all entry h
  exact ⟨_, htemplate, hnone, fun c hc => by simpa using List.all_eq_true.mp hchars c hc⟩

/-- **The name of a class** has the slug behind one beginning for all classes. -/
theorem fillSlug_class {entry : String × String} (h : entry ∈ category.classes) :
    ∃ ending : String, (∀ slug, fillSlug entry.1 slug = ".has-" ++ slug ++ ending) ∧
      ∀ c ∈ ending.toList, Slug.isSmall c = true ∨ c = '-' := by
  obtain ⟨ending, htemplate, hnone, hchars⟩ := classTemplate_eq h
  have hfirst : Text.occursIn slugPlaceholder.toList
      (".has-".toList ++ slugPlaceholder.toList.dropLast) = false := by decide +kernel
  refine ⟨String.ofList ending, fun slug => ?_, by simpa using hchars⟩
  rw [fillSlug, htemplate, Text.replaceAll_append (by decide +kernel) hfirst,
    Text.replaceAll_eq_self hnone, String.ofList_append, String.ofList_append,
    String.ofList_toList, String.ofList_toList]

end ThemeSheet.Category
