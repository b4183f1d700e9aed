import ThemeSheet.Proofs.Slug.Hyphens
import ThemeSheet.Proofs.Tree.LongIntegers

/-!
# Slugs that are cut again

A slug is cut into the words that it was made of. Before a hyphen and at the end of a text every
word ends: small letters take no more there, a contraction and an ordinal that stand before it are
taken whole, and digits have no ordinal behind them. So it does not matter how the words were
written before, and where they stood; the slug of a slug is that slug.

## Main definitions

* `Slug.EndsWord`, of what stands behind a word of a slug;
* `Slug.inSmall`, a word in small letters.

## Main results

* `Slug.wordLength_append`: a word of slugs is taken whole;
* `Slug.split_ofChars`: the words of a slug;
* `Slug.slug_of_slug`: slugs of values, cut again.
-/

namespace ThemeSheet.Slug

open Text (isDecimalDigit)

variable {c last : Char} {cs run rest tail word : List Char} {parts : List (List Char)}

/-! ### Where a word ends -/

/-- What stands behind a word of a slug: nothing, or a hyphen. -/
def EndsWord (tail : List Char) : Prop := tail = [] ∨ ∃ rest, tail = '-' :: rest

theorem EndsWord.takeWhile_append {p : Char → Bool} (h : EndsWord tail) (hp : p '-' = false)
    (hrun : ∀ c ∈ run, p c = true) : (run ++ tail).takeWhile p = run := by
  rw [List.takeWhile_append_of_pos hrun]
  rcases h with rfl | ⟨rest, rfl⟩
  · simp
  · simp [hp]

theorem EndsWord.smallWordEnds (h : EndsWord tail) : smallWordEnds tail = true := by
  rcases h with rfl | ⟨rest, rfl⟩
  · rfl
  · simp [Slug.smallWordEnds, show isBreak '-' = true by decide]

theorem EndsWord.continuesWord (h : EndsWord tail) (otherCase : Char → Bool) :
    continuesWord otherCase tail = false := by
  rcases h with rfl | ⟨rest, rfl⟩
  · rfl
  · simp [Slug.continuesWord, show Text.isWordCharacter '-' = false by decide]

theorem EndsWord.contractionLength (h : EndsWord tail) (endings : List (List Char))
    (ends : List Char → Bool) : contractionLength endings ends tail = 0 := by
  rcases h with rfl | ⟨rest, rfl⟩
  · rfl
  · simp [Slug.contractionLength, show '-' ≠ apostrophe by decide]

/-- Where a word ends, no letters of an ordinal stand. -/
theorem EndsWord.ordinalLength (h : EndsWord tail) (last : Char) : ordinalLength last tail = 0 := by
  have hall : ∀ e ∈ ordinalEndings,
      e.isPrefixOf tail = false ∧ (e.map Char.toUpper).isPrefixOf tail = false := by
    rcases h with rfl | ⟨rest, rfl⟩ <;> simp [ordinalEndings, List.isPrefixOf]
  obtain ⟨hsmall, hcapital⟩ := hall _ (ordinalEnding_mem last)
  simp [Slug.ordinalLength, hsmall, hcapital]

/-! ### Words are taken whole -/

theorem smallWordLength_append (hrun : ∀ c ∈ run, isSmall c = true) (htail : EndsWord tail) :
    smallWordLength (run ++ tail) = run.length := by
  have hlength : runLength isSmall (run ++ tail) = run.length :=
    congrArg List.length (htail.takeWhile_append (by decide) hrun)
  simp only [smallWordLength, hlength, List.drop_left, htail.contractionLength, Nat.add_zero]

/-- A contraction before the end of a word is taken whole. -/
theorem contractionLength_append {ending : List Char} (hending : ending ∈ contractions)
    (htail : EndsWord tail) :
    contractionLength contractions smallWordEnds (apostrophe :: ending ++ tail) =
      ending.length + 1 := by
  have hends := htail.smallWordEnds
  simp only [contractions, List.mem_cons, List.not_mem_nil, or_false] at hending
  rcases hending with rfl | rfl | rfl | rfl | rfl | rfl | rfl <;>
    simp [Slug.contractionLength, contractions, List.isPrefixOf, hends]

theorem smallWordLength_contracted {ending : List Char} (hrun : ∀ c ∈ run, isSmall c = true)
    (hending : ending ∈ contractions) (htail : EndsWord tail) :
    smallWordLength (run ++ (apostrophe :: ending ++ tail)) = run.length + (ending.length + 1) := by
  have hlength : runLength isSmall (run ++ (apostrophe :: ending ++ tail)) = run.length := by
    rw [runLength, List.takeWhile_append_of_pos hrun]
    simp [show isSmall apostrophe = false by decide]
  simp only [smallWordLength, hlength, List.drop_left, contractionLength_append hending htail]

theorem ordinalLength_append (last : Char) (htail : EndsWord tail) :
    ordinalLength last (ordinalEnding last ++ tail) = 2 := by
  have hends := htail.continuesWord Char.isUpper
  have hall : ∀ e ∈ ordinalEndings,
      (e.map Char.toUpper).isPrefixOf (e ++ tail) = false ∧ e.isPrefixOf (e ++ tail) = true ∧
        (e ++ tail).drop 2 = tail := by
    simp [ordinalEndings, List.isPrefixOf]
  obtain ⟨hcapital, hsmall, hafter⟩ := hall _ (ordinalEnding_mem last)
  simp [ordinalLength, hcapital, hsmall, hafter, hends]

/-- The digits of a number are taken, whatever stands behind them but digits. -/
theorem wordLength_digits {digits : List Char} (hdigits : ∀ c ∈ digits, isDecimalDigit c = true)
    (hlast : isDecimalDigit last = true) (hrest : rest.takeWhile isDecimalDigit = []) :
    wordLength (digits ++ last :: rest) = digits.length + 1 + ordinalLength last rest := by
  have hall : ∀ c ∈ digits ++ [last], isDecimalDigit c = true :=
    List.forall_mem_append.mpr ⟨hdigits, List.forall_mem_singleton.mpr hlast⟩
  have hrun : (digits ++ [last] ++ rest).takeWhile isDecimalDigit = digits ++ [last] := by
    rw [List.takeWhile_append_of_pos hall, hrest, List.append_nil]
  have hnumber : wordLength (digits ++ last :: rest) = numberLength (digits ++ last :: rest) := by
    cases digits with
    | nil => exact wordLength_of_isDecimalDigit hlast rest
    | cons d digits => exact wordLength_of_isDecimalDigit (hdigits d List.mem_cons_self) _
  rw [hnumber, List.append_cons, numberLength_eq hrun, List.drop_left, List.length_append,
    List.length_singleton]

/-- **A word of slugs is taken whole** where a word ends behind it. -/
theorem wordLength_append (hword : IsSlugWord word) (htail : EndsWord tail) :
    wordLength (word ++ tail) = word.length := by
  cases hword with
  | letters hne hrun =>
    obtain ⟨c, run, rfl⟩ := List.exists_cons_of_ne_nil hne
    rw [List.cons_append, wordLength_of_isSmall (hrun c List.mem_cons_self), ← List.cons_append,
      smallWordLength_append hrun htail]
  | @contracted run ending hne hrun hending =>
    obtain ⟨c, run, rfl⟩ := List.exists_cons_of_ne_nil hne
    rw [List.append_assoc, List.cons_append, wordLength_of_isSmall (hrun c List.mem_cons_self),
      ← List.cons_append, smallWordLength_contracted hrun hending htail, List.length_append]
    rfl
  | number hne hdigits =>
    obtain ⟨digits, last, rfl⟩ : ∃ digits last, word = digits ++ [last] :=
      ⟨_, _, (List.dropLast_concat_getLast hne).symm⟩
    obtain ⟨hinit, hlast⟩ := List.forall_mem_append.mp hdigits
    have hdigit : tail.takeWhile isDecimalDigit = [] :=
      htail.takeWhile_append (by decide) (List.forall_mem_nil _)
    rw [List.append_assoc, List.singleton_append,
      wordLength_digits hinit (hlast last List.mem_cons_self) hdigit, htail.ordinalLength,
      List.length_append, List.length_singleton]
  | @ordinal digits last hdigits hlast =>
    have hletters : ∀ e ∈ ordinalEndings, (e ++ tail).takeWhile isDecimalDigit = [] := by
      simp [ordinalEndings, show isDecimalDigit 's' = false by decide,
        show isDecimalDigit 'n' = false by decide, show isDecimalDigit 'r' = false by decide,
        show isDecimalDigit 't' = false by decide]
    rw [List.append_assoc, List.cons_append,
      wordLength_digits hdigits hlast (hletters _ (ordinalEnding_mem last)),
      ordinalLength_append last htail, List.length_append, List.length_cons, length_ordinalEnding]

/-! ### Words with hyphens between them -/

theorem words_of_wordLength {n : Nat} (h : wordLength cs = n + 1) :
    words cs = cs.take (n + 1) :: words (cs.drop (n + 1)) := by
  cases cs with
  | nil => cases h
  | cons c rest =>
    rw [words, h]
    rfl

theorem words_of_wordLength_eq_zero (h : wordLength (c :: rest) = 0) :
    words (c :: rest) = words rest := by
  rw [words, h]

/-- A word of slugs is the first word of a text that begins with it. -/
theorem words_append (hword : IsSlugWord word) (htail : EndsWord tail) :
    words (word ++ tail) = word :: words tail := by
  obtain ⟨n, hn⟩ : ∃ n, word.length = n + 1 :=
    Nat.exists_eq_succ_of_ne_zero (by simpa using hword.ne_nil)
  have hlength := wordLength_append hword htail
  rw [hn] at hlength
  rw [words_of_wordLength hlength, ← hn, List.take_left, List.drop_left]

/-- **Words of slugs with hyphens between them** are cut at the hyphens. -/
theorem words_joinWith (h : ∀ word ∈ parts, IsSlugWord word) :
    words (Text.joinWith ['-'] parts) = parts := by
  induction parts with
  | nil => simp [Text.joinWith, words]
  | cons word parts ih =>
    obtain ⟨hword, hparts⟩ := List.forall_mem_cons.mp h
    by_cases hnil : parts = []
    · subst hnil
      have hone : words (word ++ []) = word :: words [] := words_append hword (.inl rfl)
      simpa [Text.joinWith, words] using hone
    · have hhyphen : wordLength ('-' :: Text.joinWith ['-'] parts) = 0 :=
        wordLength_of_not_isKept (by decide) _
      rw [Text.joinWith_cons_of_ne_nil hnil, List.append_assoc, List.singleton_append,
        words_append hword (.inr ⟨_, rfl⟩), words_of_wordLength_eq_zero hhyphen, ih hparts]

/-! ### Slugs -/

/-- **The words of a slug** are those it was made of, in small letters. -/
theorem split_ofChars (cs : List Char) : split (ofChars cs) = slugWords cs := by
  have hkept : (ofChars cs).filter (· ≠ '\x27') = ofChars cs := by
    refine List.filter_eq_self.mpr fun c hc => ?_
    have hchar := isSlugChar_of_mem_ofChars hc
    rw [decide_eq_true_eq]
    rintro rfl
    revert hchar
    decide
  rw [split, hkept, ofChars_eq, words_joinWith isSlugWord_of_mem_slugWords]

/-- **The slug of a slug** is that slug. -/
theorem ofChars_ofChars (cs : List Char) : ofChars (ofChars cs) = ofChars cs := by
  have hsmall : (slugWords cs).map (List.map toSmall) = slugWords cs :=
    (List.map_congr_left fun word hword => (isSlugWord_of_mem_slugWords word hword).map_toSmall)
      |>.trans (List.map_id _)
  rw [ofChars_eq (ofChars cs), slugWords, split_ofChars, hsmall, ← ofChars_eq]

/-- A word in small letters. -/
def inSmall (word : String) : String := String.ofList (word.toList.map toSmall)

/-- **Slugs are cut again as they were made**: the words of the slug of a value are its words in
small letters, and the slug of the slug is the slug. Only a value in which an integer stands that is
too long to be written has no slug. -/
theorem slug_of_slug (v : Value) :
    (∃ words slug, splitValue v = .ok words ∧ ofValue v = .ok slug ∧
        splitValue (.text slug) = .ok (words.map inSmall) ∧ ofValue (.text slug) = .ok slug) ∨
      splitValue v = .error .integerTooLong ∧ ofValue v = .error .integerTooLong ∧
        v.HasLongInteger := by
  refine (ofValue_cases v).imp_left ?_
  rintro ⟨s, -, hwords, hslug⟩
  refine ⟨_, _, hwords, hslug, ?_, ?_⟩
  · show Except.ok ((split (ofString s).toList).map String.ofList) = _
    rw [ofString, String.toList_ofList, split_ofChars, slugWords, List.map_map, List.map_map]
    simp [inSmall, Function.comp_def]
  · show Except.ok (ofString (ofString s)) = _
    rw [ofString, ofString, String.toList_ofList, ofChars_ofChars]

example : splitValue (.text "WE’LLGo 22ND ÉcoleÊtre ٣rd") =
    .ok ["WE’LL", "Go", "22ND", "École", "Être", "٣", "rd"] := by decide +kernel

example : splitValue (.text "we’ll-go-22nd-école-être-٣-rd") =
    .ok ["we’ll", "go", "22nd", "école", "être", "٣", "rd"] := by decide +kernel

end ThemeSheet.Slug
