import ThemeSheet.Proofs.Slug.Hyphens
import ThemeSheet.Proofs.Tree.LongIntegers

/-!
# What a slug keeps of a text

At every letter and at every digit a word begins, whatever stands behind it. So the cut passes over
nothing that a slug keeps: between the words of a text there are neither letters nor digits. The
letters and digits of a slug are therefore those of the text, in their order and in small letters.

## Main definitions

* `Slug.Passes`, of the gaps between words;
* `Slug.CutsInto`, of words that leave gaps only.

## Main results

* `Slug.wordLength_pos`: words begin at letters and digits;
* `Slug.cutsInto_words`: the words of a text leave gaps only;
* `Slug.letters_of_slug`: what the slug of a value keeps.
-/

namespace ThemeSheet.Slug

open Text (isDecimalDigit)

variable {c : Char} {cs gap rest : List Char} {parts : List (List Char)}

/-- No character of a gap is a letter or a digit. -/
def Passes (gap : List Char) : Prop := ∀ c ∈ gap, isKept c = false

/-- A text consists of words, none of them empty, that stand in it one behind the other, and of gaps
between them. -/
inductive CutsInto : List Char → List (List Char) → Prop
  | gap {gap : List Char} (h : Passes gap) : CutsInto gap []
  | word {gap word rest : List Char} {words : List (List Char)} (hgap : Passes gap)
      (hword : word ≠ []) (hrest : CutsInto rest words) :
      CutsInto (gap ++ word ++ rest) (word :: words)

/-! ### Where words begin -/

theorem runLength_pos {p : Char → Bool} (hc : p c = true) (rest : List Char) :
    0 < runLength p (c :: rest) := by
  simp [runLength, hc]

/-- A capital that stands alone is a word, and of more capitals at most the last is left over. -/
theorem capitalWordLength_pos (hc : isCapital c = true)
    (hrest : ∀ d ds, rest = d :: ds → isSmall d = false) : 0 < capitalWordLength (c :: rest) := by
  have hrun := runLength_pos hc rest
  rw [capitalWordLength]
  split
  next => exact hrun
  next d ds hdrop =>
    split
    next hd =>
      have hmore : runLength isCapital (c :: rest) ≠ 1 := by
        intro hone
        rw [hone, List.drop_succ_cons, List.drop_zero] at hdrop
        simp [hrest d ds hdrop] at hd
      omega
    next => omega

/-- **A word begins at every letter and at every digit.** -/
theorem wordLength_pos (h : isKept c = true) (rest : List Char) : 0 < wordLength (c :: rest) := by
  rcases beginning_cases c rest with hsmall | ⟨hcapital, d, ds, rfl, hnext⟩ | ⟨hcapital, hrest⟩ |
    hdigit | hother
  · rw [wordLength_of_isSmall hsmall]
    exact Nat.lt_of_lt_of_le (runLength_pos hsmall rest) (Nat.le_add_right _ _)
  · rw [wordLength_of_isCapital_isSmall hcapital hnext]
    exact Nat.succ_pos _
  · rw [wordLength_of_isCapital hcapital hrest]
    exact capitalWordLength_pos hcapital hrest
  · rw [wordLength_of_isDecimalDigit hdigit]
    exact Nat.lt_of_lt_of_le (runLength_pos hdigit rest) (Nat.le_add_right _ _)
  · rw [hother] at h
    cases h

/-! ### The words of a text -/

theorem CutsInto.cons (hc : isKept c = false) (h : CutsInto cs parts) :
    CutsInto (c :: cs) parts := by
  cases h with
  | gap h => exact .gap (List.forall_mem_cons.mpr ⟨hc, h⟩)
  | word hgap hword hrest => exact .word (List.forall_mem_cons.mpr ⟨hc, hgap⟩) hword hrest

/-- **The words of a text leave neither letters nor digits over.** -/
theorem cutsInto_words (cs : List Char) : CutsInto cs (words cs) := by
  fun_induction words cs with
  | case1 => exact .gap (List.forall_mem_nil _)
  | case2 c rest hlength ih =>
    refine ih.cons (Bool.eq_false_iff.mpr fun hc => ?_)
    exact absurd hlength (Nat.ne_of_gt (wordLength_pos hc rest))
  | case3 c rest n hlength ih =>
    have hword := CutsInto.word (List.forall_mem_nil _) (List.cons_ne_nil c (rest.take n)) ih
    rwa [List.nil_append, List.cons_append, List.take_append_drop] at hword

/-- The letters and digits of words are those of the text. -/
theorem CutsInto.filter_flatten (h : CutsInto cs parts) :
    parts.flatten.filter isKept = cs.filter isKept := by
  have hnone : ∀ {gap : List Char}, Passes gap → gap.filter isKept = [] := fun hgap =>
    List.filter_eq_nil_iff.mpr fun c hc => by simp [hgap c hc]
  induction h with
  | gap hgap => simp [hnone hgap]
  | word hgap _ _ ih => simp [hnone hgap, ih]

/-! ### The characters of a slug -/

theorem isKept_toSmall (c : Char) : isKept (toSmall c) = isKept c := by
  by_cases hc : isCapital c = true
  · have hletter : isLetter c = true := by simp [isLetter, hc]
    simp [isKept, isLetter, hc, isSmall_toSmall hletter]
  · rw [toSmall, if_neg hc]

/-- Of the characters of slugs, all but hyphens and apostrophes are letters or digits. -/
theorem isKept_of_isSlugChar (h : isSlugChar c = true) :
    isKept c = decide (c ≠ '-' ∧ c ≠ apostrophe) := by
  simp only [isSlugChar, Bool.or_eq_true, beq_iff_eq] at h
  have hhyphen : isKept '-' = false := by decide
  have happostrophe : isKept apostrophe = false := by decide
  have hkept : isKept c = true → c ≠ '-' ∧ c ≠ apostrophe := fun hc =>
    ⟨fun heq => by simp [heq, hhyphen] at hc, fun heq => by simp [heq, happostrophe] at hc⟩
  rcases h with ((hsmall | hdigit) | rfl) | rfl
  · have hc : isKept c = true := by simp [isKept, isLetter, hsmall]
    simp [hc, hkept hc]
  · have hc : isKept c = true := by simp [isKept, hdigit]
    simp [hc, hkept hc]
  · simp [happostrophe]
  · simp [hhyphen]

/-- **The letters and digits of a slug** are those of the text, in small letters. -/
theorem filter_ofChars (cs : List Char) :
    (ofChars cs).filter (fun c => c ≠ '-' ∧ c ≠ apostrophe) =
      (cs.filter isKept).map toSmall := by
  have hquote : ∀ c, (isKept c && decide (c ≠ '\x27')) = isKept c := by
    intro c
    by_cases hc : c = '\x27'
    · subst hc
      decide
    · simp [hc]
  calc (ofChars cs).filter (fun c => c ≠ '-' ∧ c ≠ apostrophe)
      = (ofChars cs).filter isKept :=
        List.filter_congr fun c hc => (isKept_of_isSlugChar (isSlugChar_of_mem_ofChars hc)).symm
    _ = ((Text.joinWith ['-'] (split cs)).filter isKept).map toSmall := by
        rw [ofChars, List.filter_map]
        simp only [Function.comp_def, isKept_toSmall]
    _ = ((split cs).flatten.filter isKept).map toSmall := by
        rw [Text.filter_joinWith (by decide)]
    _ = (cs.filter isKept).map toSmall := by
        rw [split, (cutsInto_words _).filter_flatten, List.filter_filter]
        simp only [hquote]

/-- **A slug loses and invents no letter or digit**: the words of a value stand one behind the other
in its spelling and leave none of them over, and have nothing else but the apostrophes of
contractions. The slug has all of the letters and digits, in small letters, and no hyphen of it
stands at one of its ends or beside another. Only a value in which an integer stands that is too
long to be written has no slug. -/
theorem letters_of_slug (v : Value) :
    (∃ s words slug, v.spelling = .ok s ∧ splitValue v = .ok words ∧ ofValue v = .ok slug ∧
        CutsInto (s.toList.filter (· ≠ '\x27')) (words.map String.toList) ∧
        (∀ word ∈ words, ∀ c ∈ word.toList, isWordChar c = true) ∧
        slug.toList.filter (fun c => c ≠ '-' ∧ c ≠ apostrophe) =
          (s.toList.filter isKept).map toSmall ∧
        slug.toList.head? ≠ some '-' ∧ slug.toList.getLast? ≠ some '-' ∧
        ¬['-', '-'] <:+: slug.toList) ∨
      splitValue v = .error .integerTooLong ∧ ofValue v = .error .integerTooLong ∧
        v.HasLongInteger := by
  refine (ofValue_cases v).imp_left ?_
  rintro ⟨s, hs, hwords, hslug⟩
  have hhyphens := hyphensApart_ofString s
  refine ⟨s, _, _, hs, hwords, hslug, ?_, ?_, ?_, head?_ofString_ne s, hhyphens.getLast?_ne,
    hhyphens.not_infix⟩
  · rw [List.map_map, split]
    simpa [Function.comp_def] using cutsInto_words (s.toList.filter (· ≠ '\x27'))
  · rw [List.forall_mem_map]
    intro word hword
    rw [String.toList_ofList]
    exact isWordChar_of_mem_words hword
  · rw [ofString, String.toList_ofList]
    exact filter_ofChars s.toList

example : ofValue (.list [.text "Hello--World's", .bool true, .text "×2ND"] none) =
    .ok "hello-worlds-true-2nd" := by decide +kernel

end ThemeSheet.Slug
