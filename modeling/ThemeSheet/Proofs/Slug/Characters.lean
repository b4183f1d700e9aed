import ThemeSheet.Proofs.Results
import ThemeSheet.Proofs.Slug.WordShape
import ThemeSheet.Proofs.Text.Joining

/-!
# The characters of a slug

Whatever a text is made of, its slug is made of small letters, decimal digits, the curly apostrophes
of contractions, and the hyphens between words. A word takes nothing else in: letters of either
class, digits, and a contraction with its apostrophe.

## Main definitions

* `Slug.isWordChar`, `Slug.isSlugChar`;
* `Slug.slugWords`, the words of a slug.

## Main results

* `Slug.isWordChar_of_mem_words`: the characters of words;
* `Slug.ofChars_eq`: a slug by its words;
* `Slug.isSlugChar_of_mem_ofString`: the characters of slugs.
-/

namespace ThemeSheet.Slug

open Text (isDecimalDigit)

variable {c : Char} {cs : List Char}

/-- Whether a word may contain a character. -/
def isWordChar (c : Char) : Bool := isLetter c || isDecimalDigit c || c == apostrophe

/-- Whether a slug may contain a character. -/
def isSlugChar (c : Char) : Bool := isSmall c || isDecimalDigit c || c == apostrophe || c == '-'

/-! ### Words -/

theorem isWordChar_of_isSmall (c : Char) (h : isSmall c = true) : isWordChar c = true := by
  simp [isWordChar, isLetter, h]

theorem isWordChar_of_isDecimalDigit (c : Char) (h : isDecimalDigit c = true) :
    isWordChar c = true := by
  simp [isWordChar, h]

/-- A word of slugs is letters or digits, with a contraction behind them perhaps. -/
theorem IsSlugWord.exists_stem {word : List Char} (h : IsSlugWord word) :
    ∃ stem tail, word = stem ++ tail ∧ stem ≠ [] ∧ IsContraction tail ∧
      ∀ c ∈ stem, isSmall c = true ∨ isDecimalDigit c = true := by
  cases h with
  | letters hne hrun =>
    exact ⟨word, [], (List.append_nil _).symm, hne, .inl rfl, fun c hc => .inl (hrun c hc)⟩
  | contracted hne hrun hending =>
    exact ⟨_, _, rfl, hne, .inr ⟨_, hending, rfl⟩, fun c hc => .inl (hrun c hc)⟩
  | number hne hdigits =>
    exact ⟨word, [], (List.append_nil _).symm, hne, .inl rfl, fun c hc => .inr (hdigits c hc)⟩
  | @ordinal digits last hdigits hlast =>
    have hletters : ∀ e ∈ ordinalEndings, e.all isSmall = true := by decide
    refine ⟨_, [], (List.append_nil _).symm, by simp, .inl rfl, ?_⟩
    refine List.forall_mem_append.mpr ⟨fun c hc => .inr (hdigits c hc), ?_⟩
    exact List.forall_mem_cons.mpr
      ⟨.inr hlast, fun c hc =>
        .inl (List.all_eq_true.mp (hletters _ (ordinalEnding_mem last)) c hc)⟩

/-- **The characters of a word of slugs** are small letters, digits and apostrophes. -/
theorem IsSlugWord.char_cases {word : List Char} (h : IsSlugWord word) :
    ∀ c ∈ word, isSmall c = true ∨ isDecimalDigit c = true ∨ c = apostrophe := by
  have hletters : ∀ e ∈ contractions, e.all isSmall = true := by decide
  obtain ⟨stem, tail, rfl, -, htail, hstem⟩ := h.exists_stem
  refine List.forall_mem_append.mpr ⟨fun c hc => (hstem c hc).imp_right .inl, ?_⟩
  rcases htail with rfl | ⟨ending, hending, rfl⟩
  · exact List.forall_mem_nil _
  · exact List.forall_mem_cons.mpr
      ⟨.inr (.inr rfl), fun c hc =>
        .inl (List.all_eq_true.mp (hletters ending hending) c hc)⟩

/-- A word of slugs is in small letters. -/
theorem IsSlugWord.map_toSmall {word : List Char} (h : IsSlugWord word) :
    word.map toSmall = word := by
  refine map_toSmall_eq_self fun c hc => ?_
  rcases h.char_cases c hc with hsmall | hdigit | rfl
  · exact toSmall_of_isSmall hsmall
  · exact toSmall_of_isDecimalDigit hdigit
  · decide +kernel

theorem IsSlugWord.isWordChar {word : List Char} (h : IsSlugWord word) (hc : c ∈ word) :
    isWordChar c = true := by
  rcases h.char_cases c hc with hsmall | hdigit | rfl
  · exact isWordChar_of_isSmall c hsmall
  · exact isWordChar_of_isDecimalDigit c hdigit
  · decide +kernel

theorem isWordChar_of_isWordChar_toSmall (h : isWordChar (toSmall c) = true) :
    isWordChar c = true := by
  by_cases hcapital : isCapital c = true
  · simp [isWordChar, isLetter, hcapital]
  · rwa [toSmall, if_neg hcapital] at h

/-- **The characters of words** are letters, digits and apostrophes. -/
theorem isWordChar_of_mem_words {word : List Char} (h : word ∈ words cs) :
    ∀ c ∈ word, isWordChar c = true := fun _ hc =>
  isWordChar_of_isWordChar_toSmall
    ((isSlugWord_of_mem_words h).isWordChar (List.mem_map_of_mem hc))

/-! ### Slugs -/

/-- The words of the slug of a text. -/
def slugWords (cs : List Char) : List (List Char) := (split cs).map (List.map toSmall)

theorem isSlugWord_of_mem_slugWords : ∀ word ∈ slugWords cs, IsSlugWord word := by
  intro word hword
  obtain ⟨original, horiginal, rfl⟩ := List.mem_map.mp hword
  exact isSlugWord_of_mem_words horiginal

/-- **A slug is words of slugs with hyphens between them.** -/
theorem ofChars_eq (cs : List Char) : ofChars cs = Text.joinWith ['-'] (slugWords cs) :=
  Text.map_joinWith toSmall ['-'] (split cs)

/-- **A slug is made of small letters, decimal digits, apostrophes and hyphens.** -/
theorem isSlugChar_of_mem_ofChars (h : c ∈ ofChars cs) : isSlugChar c = true := by
  rw [ofChars_eq] at h
  rcases Text.mem_joinWith h with hsep | ⟨word, hword, hc⟩
  · simp [isSlugChar, List.mem_singleton.mp hsep]
  · rcases (isSlugWord_of_mem_slugWords word hword).char_cases c hc with hsmall | hdigit | rfl
    · simp [isSlugChar, hsmall]
    · simp [isSlugChar, hdigit]
    · simp [isSlugChar]

theorem isSlugChar_of_mem_ofString {s : String} (h : c ∈ (ofString s).toList) :
    isSlugChar c = true := by
  rw [ofString, String.toList_ofList] at h
  exact isSlugChar_of_mem_ofChars h

theorem isSlugChar_of_mem_ofValue {v : Value} {slug : String} (h : ofValue v = .ok slug) :
    ∀ c ∈ slug.toList, isSlugChar c = true := by
  rw [ofValue] at h
  obtain ⟨s, -, h⟩ := Result.exists_of_bind h
  cases h
  exact fun c => isSlugChar_of_mem_ofString

end ThemeSheet.Slug
