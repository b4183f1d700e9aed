import ThemeSheet.Slug.Basic

/-!
# The shape of words

A word is either letters, with a contraction behind them perhaps, or digits, with the letters of an
ordinal behind them perhaps. The letters may be in capitals, but the small letters of a word tell
its shape: what has been taken for a contraction or an ordinal in capitals is one in small letters
too.

## Main definitions

* `Slug.IsSlugWord`, the shape of a word in small letters;
* `Slug.ordinalEndings`, the letters that ordinals end in.

## Main results

* `Slug.take_contractionLength`, `Slug.take_ordinalLength`: what stands behind letters and digits;
* `Slug.isSlugWord_of_mem_words`: the shape of words.
-/

namespace ThemeSheet.Slug

open Text (isDecimalDigit)

variable {c last : Char} {cs run rest word : List Char}

/-! ### Letters and digits -/

/-- No decimal digit is a letter. -/
theorem isLetter_eq_false_of_isDecimalDigit (h : isDecimalDigit c = true) : isLetter c = false := by
  have hzeros : ∀ first ∈ Text.digitZeros, first + 10 ≤ 65 ∨ 255 < first := by decide +kernel
  rw [isDecimalDigit, Text.digitValue?, Option.isSome_map] at h
  obtain ⟨first, hfirst⟩ := Option.isSome_iff_exists.mp h
  have hrange := List.find?_some hfirst
  have hfar := hzeros first (List.mem_of_find?_eq_some hfirst)
  simp only [Bool.and_eq_true, decide_eq_true_eq] at hrange
  simp only [isLetter, isSmall, isCapital, Bool.or_eq_false_iff, Bool.and_eq_false_iff,
    decide_eq_false_iff_not]
  omega

theorem isSmall_eq_false_of_isDecimalDigit (h : isDecimalDigit c = true) : isSmall c = false :=
  (Bool.or_eq_false_iff.mp (isLetter_eq_false_of_isDecimalDigit h)).1

theorem isCapital_eq_false_of_isDecimalDigit (h : isDecimalDigit c = true) :
    isCapital c = false :=
  (Bool.or_eq_false_iff.mp (isLetter_eq_false_of_isDecimalDigit h)).2

theorem toSmall_of_isSmall (h : isSmall c = true) : toSmall c = c := by
  simp [toSmall, not_isCapital_of_isSmall h]

theorem toSmall_of_isDecimalDigit (h : isDecimalDigit c = true) : toSmall c = c := by
  simp [toSmall, isCapital_eq_false_of_isDecimalDigit h]

/-- A text that is not changed character by character is not changed. -/
theorem map_toSmall_eq_self (h : ∀ c ∈ cs, toSmall c = c) : cs.map toSmall = cs :=
  (List.map_congr_left h).trans (List.map_id cs)

/-! ### Shapes -/

/-- The words of slugs: small letters, with a contraction behind them perhaps, and digits, with the
letters of an ordinal behind them perhaps. -/
inductive IsSlugWord : List Char → Prop
  | letters {run : List Char} (hne : run ≠ []) (hrun : ∀ c ∈ run, isSmall c = true) :
      IsSlugWord run
  | contracted {run ending : List Char} (hne : run ≠ []) (hrun : ∀ c ∈ run, isSmall c = true)
      (hending : ending ∈ contractions) : IsSlugWord (run ++ apostrophe :: ending)
  | number {digits : List Char} (hne : digits ≠ [])
      (hdigits : ∀ c ∈ digits, isDecimalDigit c = true) : IsSlugWord digits
  | ordinal {digits : List Char} {last : Char} (hdigits : ∀ c ∈ digits, isDecimalDigit c = true)
      (hlast : isDecimalDigit last = true) : IsSlugWord (digits ++ last :: ordinalEnding last)

theorem IsSlugWord.ne_nil (h : IsSlugWord word) : word ≠ [] := by
  cases h with
  | letters hne _ => exact hne
  | contracted _ _ _ => simp
  | number hne _ => exact hne
  | ordinal _ _ => simp

/-- Nothing, or a contraction. -/
def IsContraction (tail : List Char) : Prop :=
  tail = [] ∨ ∃ ending ∈ contractions, tail = apostrophe :: ending

/-- Small letters and what may stand behind them. -/
theorem IsSlugWord.of_run {tail : List Char} (hne : run ≠ []) (hrun : ∀ c ∈ run, isSmall c = true)
    (htail : IsContraction tail) : IsSlugWord (run ++ tail) := by
  rcases htail with rfl | ⟨ending, hending, rfl⟩
  · rw [List.append_nil]
    exact .letters hne hrun
  · exact .contracted hne hrun hending

/-! ### Pieces of a word -/

theorem take_runLength (p : Char → Bool) (cs : List Char) :
    cs.take (runLength p cs) = cs.takeWhile p :=
  (List.prefix_iff_eq_take.mp (List.takeWhile_prefix p)).symm

theorem forall_mem_takeWhile {p : Char → Bool} (cs : List Char) :
    ∀ c ∈ cs.takeWhile p, p c = true :=
  List.all_eq_true.mp List.all_takeWhile

/-- **What is taken for a contraction**: nothing, or an apostrophe with one of the endings. -/
theorem take_contractionLength (endings : List (List Char)) (ends : List Char → Bool)
    (cs : List Char) : cs.take (contractionLength endings ends cs) = [] ∨
      ∃ ending ∈ endings, cs.take (contractionLength endings ends cs) = apostrophe :: ending := by
  cases cs with
  | nil => exact .inl List.take_nil
  | cons c rest =>
    rw [contractionLength]
    split
    next hc =>
      split
      next ending hfound =>
        have hboth := List.find?_some hfound
        rw [Bool.and_eq_true, List.isPrefixOf_iff_prefix] at hboth
        refine .inr ⟨ending, List.mem_of_find?_eq_some hfound, ?_⟩
        rw [List.take_succ_cons, ← List.prefix_iff_eq_take.mp hboth.1, hc]
      next => exact .inl rfl
    next => exact .inl rfl

/-- The letters that ordinals end in. -/
def ordinalEndings : List (List Char) := [['s', 't'], ['n', 'd'], ['r', 'd'], ['t', 'h']]

theorem ordinalEnding_mem (last : Char) : ordinalEnding last ∈ ordinalEndings := by
  rw [ordinalEnding]
  repeat' split
  all_goals decide

theorem length_ordinalEnding (last : Char) : (ordinalEnding last).length = 2 := by
  have hall : ∀ e ∈ ordinalEndings, e.length = 2 := by decide
  exact hall _ (ordinalEnding_mem last)

/-- **What is taken for an ordinal**: nothing, or its letters, all capitals or all small. -/
theorem take_ordinalLength (last : Char) (rest : List Char) :
    rest.take (ordinalLength last rest) = [] ∨
      rest.take (ordinalLength last rest) = (ordinalEnding last).map Char.toUpper ∨
      rest.take (ordinalLength last rest) = ordinalEnding last := by
  have hstart : ∀ {start : List Char}, start.length = 2 → start.isPrefixOf rest = true →
      rest.take 2 = start := by
    intro start hlength hstart
    rw [← hlength, ← List.prefix_iff_eq_take.mp (List.isPrefixOf_iff_prefix.mp hstart)]
  rw [ordinalLength]
  split
  next hcapital =>
    rw [Bool.and_eq_true] at hcapital
    exact .inr (.inl (hstart (by rw [List.length_map, length_ordinalEnding]) hcapital.1))
  next =>
    split
    next hsmall =>
      rw [Bool.and_eq_true] at hsmall
      exact .inr (.inr (hstart (length_ordinalEnding last) hsmall.1))
    next => exact .inl rfl

/-! ### Words -/

/-- A contraction in small letters is one, whatever its letters were. -/
theorem isContraction_map_toSmall {endings : List (List Char)}
    (hendings : ∀ e ∈ endings, e.map toSmall ∈ contractions) (ends : List Char → Bool)
    (cs : List Char) :
    IsContraction ((cs.take (contractionLength endings ends cs)).map toSmall) := by
  rcases take_contractionLength endings ends cs with hnone | ⟨ending, hending, hsome⟩
  · exact .inl (by rw [hnone, List.map_nil])
  · have happostrophe : toSmall apostrophe = apostrophe := by decide +kernel
    exact .inr ⟨_, hendings ending hending, by rw [hsome, List.map_cons, happostrophe]⟩

/-- The word of small letters that a text begins with. -/
theorem map_take_smallWordLength (cs : List Char) : ∃ tail, IsContraction tail ∧
    (cs.take (smallWordLength cs)).map toSmall = cs.takeWhile isSmall ++ tail := by
  have hendings : ∀ e ∈ contractions, e.map toSmall ∈ contractions := by decide +kernel
  have hrun := map_toSmall_eq_self fun c hc =>
    toSmall_of_isSmall (forall_mem_takeWhile (p := isSmall) cs c hc)
  refine ⟨_, isContraction_map_toSmall hendings smallWordEnds (cs.drop (runLength isSmall cs)), ?_⟩
  rw [smallWordLength, List.take_add, List.map_append, take_runLength, hrun]

theorem isSmall_of_mem_map_toSmall (h : ∀ c ∈ run, isCapital c = true) :
    ∀ c ∈ run.map toSmall, isSmall c = true := by
  intro d hd
  obtain ⟨c, hc, rfl⟩ := List.mem_map.mp hd
  exact isSmall_toSmall (by simp [isLetter, h c hc])

/-- A word of capitals takes no more than the capitals, or a contraction behind all of them. -/
theorem capitalWordLength_cases (cs : List Char) :
    capitalWordLength cs ≤ runLength isCapital cs ∨
      capitalWordLength cs = runLength isCapital cs +
        contractionLength capitalContractions capitalWordEnds
          (cs.drop (runLength isCapital cs)) := by
  rw [capitalWordLength]
  split
  next => exact .inl (Nat.le_refl _)
  next d rest hrest =>
    split
    · exact .inl (Nat.sub_le _ _)
    · exact .inr (by rw [hrest])

/-- The word of capitals that a text begins with. -/
theorem isSlugWord_take_capitalWordLength (hcs : ∃ c rest, cs = c :: rest ∧ isCapital c = true)
    (hpos : 0 < capitalWordLength cs) :
    IsSlugWord ((cs.take (capitalWordLength cs)).map toSmall) := by
  obtain ⟨c, rest, rfl, hc⟩ := hcs
  have hcapitals := forall_mem_takeWhile (p := isCapital) (c :: rest)
  rcases capitalWordLength_cases (c :: rest) with hle | heq
  · have hfirst := List.take_prefix_take_left hle (l := c :: rest)
    rw [take_runLength] at hfirst
    refine .letters ?_ (isSmall_of_mem_map_toSmall fun d hd => hcapitals d (hfirst.subset hd))
    simp [Nat.ne_of_gt hpos]
  · have hendings : ∀ e ∈ capitalContractions, e.map toSmall ∈ contractions := by decide +kernel
    rw [heq, List.take_add, List.map_append, take_runLength]
    refine .of_run ?_ (isSmall_of_mem_map_toSmall hcapitals)
      (isContraction_map_toSmall hendings capitalWordEnds _)
    simp [hc]

/-- The number that a text begins with has its digits, and the letters of an ordinal by the last of
them. -/
theorem numberLength_eq {digits : List Char} (h : cs.takeWhile isDecimalDigit = digits ++ [last]) :
    numberLength cs = (digits ++ [last]).length +
      ordinalLength last (cs.drop (digits ++ [last]).length) := by
  simp only [numberLength, h, List.getLast?_concat]

theorem map_toSmall_map_toUpper (last : Char) :
    ((ordinalEnding last).map Char.toUpper).map toSmall = ordinalEnding last ∧
      (ordinalEnding last).map toSmall = ordinalEnding last := by
  have hall : ∀ e ∈ ordinalEndings,
      (e.map Char.toUpper).map toSmall = e ∧ e.map toSmall = e := by decide +kernel
  exact hall _ (ordinalEnding_mem last)

theorem isSlugWord_take_numberLength (hcs : ∃ c rest, cs = c :: rest ∧ isDecimalDigit c = true) :
    IsSlugWord ((cs.take (numberLength cs)).map toSmall) := by
  obtain ⟨c, rest, rfl, hc⟩ := hcs
  have hne : (c :: rest).takeWhile isDecimalDigit ≠ [] := by simp [hc]
  obtain ⟨digits, last, hdigits⟩ : ∃ digits last,
      (c :: rest).takeWhile isDecimalDigit = digits ++ [last] :=
    ⟨_, _, (List.dropLast_concat_getLast hne).symm⟩
  have hall : ∀ d ∈ digits ++ [last], isDecimalDigit d = true :=
    hdigits ▸ forall_mem_takeWhile (c :: rest)
  have htake : (c :: rest).take (digits ++ [last]).length = digits ++ [last] := by
    rw [← hdigits]
    exact take_runLength isDecimalDigit _
  rw [numberLength_eq hdigits, List.take_add, List.map_append, htake,
    map_toSmall_eq_self fun d hd => toSmall_of_isDecimalDigit (hall d hd)]
  have hordinal : IsSlugWord (digits ++ [last] ++ ordinalEnding last) := by
    rw [List.append_assoc]
    exact .ordinal (fun d hd => hall d (List.mem_append_left _ hd)) (hall last (by simp))
  rcases take_ordinalLength last ((c :: rest).drop (digits ++ [last]).length) with
    hnone | hcapital | hsmall
  · rw [hnone, List.map_nil, List.append_nil]
    exact .number (by simp) hall
  · rwa [hcapital, (map_toSmall_map_toUpper last).1]
  · rwa [hsmall, (map_toSmall_map_toUpper last).2]

/-! ### The cases of a beginning -/

/-- Whether a slug keeps a character: the letters and the decimal digits. -/
def isKept (c : Char) : Bool := isLetter c || isDecimalDigit c

/-- **How a text begins**: with a small letter, with a capital before a small letter or before
anything else, with a digit, or with a character that no slug keeps. -/
theorem beginning_cases (c : Char) (rest : List Char) :
    isSmall c = true ∨ (isCapital c = true ∧ ∃ d ds, rest = d :: ds ∧ isSmall d = true) ∨
      (isCapital c = true ∧ ∀ d ds, rest = d :: ds → isSmall d = false) ∨
      isDecimalDigit c = true ∨ isKept c = false := by
  by_cases hsmall : isSmall c = true
  · exact .inl hsmall
  by_cases hcapital : isCapital c = true
  · cases rest with
    | nil => exact .inr (.inr (.inl ⟨hcapital, nofun⟩))
    | cons d ds =>
      by_cases hnext : isSmall d = true
      · exact .inr (.inl ⟨hcapital, d, ds, rfl, hnext⟩)
      · refine .inr (.inr (.inl ⟨hcapital, ?_⟩))
        rintro d ds ⟨rfl, rfl⟩
        simpa using hnext
  by_cases hdigit : isDecimalDigit c = true
  · exact .inr (.inr (.inr (.inl hdigit)))
  · simp [isKept, isLetter, hsmall, hcapital, hdigit]

theorem wordLength_cons (c : Char) (rest : List Char) : wordLength (c :: rest) =
    if isSmall c then smallWordLength (c :: rest)
    else if isCapital c then
      match rest with
      | d :: _ => if isSmall d then smallWordLength rest + 1 else capitalWordLength (c :: rest)
      | [] => 1
    else if isDecimalDigit c then numberLength (c :: rest)
    else 0 := rfl

theorem wordLength_of_isSmall (h : isSmall c = true) (rest : List Char) :
    wordLength (c :: rest) = smallWordLength (c :: rest) := by
  rw [wordLength_cons, if_pos h]

theorem wordLength_of_isCapital_isSmall {d : Char} (hc : isCapital c = true)
    (hd : isSmall d = true) (rest : List Char) :
    wordLength (c :: d :: rest) = smallWordLength (d :: rest) + 1 := by
  have hnot : ¬isSmall c = true := fun h => by simp [not_isCapital_of_isSmall h] at hc
  rw [wordLength_cons, if_neg hnot, if_pos hc]
  exact if_pos hd

theorem wordLength_of_isCapital (hc : isCapital c = true)
    (hrest : ∀ d ds, rest = d :: ds → isSmall d = false) :
    wordLength (c :: rest) = capitalWordLength (c :: rest) := by
  have hnot : ¬isSmall c = true := fun h => by simp [not_isCapital_of_isSmall h] at hc
  rw [wordLength_cons, if_neg hnot, if_pos hc]
  cases rest with
  | nil => simp [capitalWordLength, runLength, hc]
  | cons d ds => exact if_neg (by simp [hrest d ds rfl])

theorem wordLength_of_isDecimalDigit (h : isDecimalDigit c = true) (rest : List Char) :
    wordLength (c :: rest) = numberLength (c :: rest) := by
  rw [wordLength_cons, if_neg (by simp [isSmall_eq_false_of_isDecimalDigit h]),
    if_neg (by simp [isCapital_eq_false_of_isDecimalDigit h]), if_pos h]

theorem wordLength_of_not_isKept (h : isKept c = false) (rest : List Char) :
    wordLength (c :: rest) = 0 := by
  simp only [isKept, isLetter, Bool.or_eq_false_iff] at h
  obtain ⟨⟨hsmall, hcapital⟩, hdigit⟩ := h
  simp [wordLength_cons, hsmall, hcapital, hdigit]

/-- **The word that a text begins with**, in small letters. -/
theorem isSlugWord_take_wordLength (hpos : 0 < wordLength cs) :
    IsSlugWord ((cs.take (wordLength cs)).map toSmall) := by
  cases cs with
  | nil => cases hpos
  | cons c rest =>
    rcases beginning_cases c rest with hsmall | ⟨hcapital, d, ds, rfl, hnext⟩ | ⟨hcapital, hrest⟩ |
      hdigit | hother
    · obtain ⟨tail, htail, hword⟩ := map_take_smallWordLength (c :: rest)
      rw [wordLength_of_isSmall hsmall, hword]
      exact .of_run (by simp [hsmall]) (forall_mem_takeWhile _) htail
    · obtain ⟨tail, htail, hword⟩ := map_take_smallWordLength (d :: ds)
      have hfirst : isSmall (toSmall c) = true := isSmall_toSmall (by simp [isLetter, hcapital])
      rw [wordLength_of_isCapital_isSmall hcapital hnext, List.take_succ_cons, List.map_cons, hword,
        ← List.cons_append]
      refine .of_run (by simp) (List.forall_mem_cons.mpr ⟨hfirst, ?_⟩) htail
      exact forall_mem_takeWhile _
    · rw [wordLength_of_isCapital hcapital hrest] at hpos ⊢
      exact isSlugWord_take_capitalWordLength ⟨c, rest, rfl, hcapital⟩ hpos
    · rw [wordLength_of_isDecimalDigit hdigit]
      exact isSlugWord_take_numberLength ⟨c, rest, rfl, hdigit⟩
    · rw [wordLength_of_not_isKept hother] at hpos
      exact absurd hpos (Nat.lt_irrefl 0)

/-- **The shape of words**: in small letters, every word of a text is a word of slugs. -/
theorem isSlugWord_of_mem_words (h : word ∈ words cs) : IsSlugWord (word.map toSmall) := by
  fun_induction words cs with
  | case1 => cases h
  | case2 c rest hlength ih => exact ih h
  | case3 c rest n hlength ih =>
    rcases List.mem_cons.mp h with rfl | h
    · have hpos : 0 < wordLength (c :: rest) := by omega
      have hword := isSlugWord_take_wordLength hpos
      rwa [hlength] at hword
    · exact ih h

end ThemeSheet.Slug
