import ThemeSheet.Proofs.Slug.Characters

/-!
# The hyphens of a slug

The hyphens of a slug stand between words, so that behind each of them stands another character. A
text with two hyphens in a row is therefore no slug, and slugs that are joined by two hyphens can be
told apart again: the first two hyphens in a row are those behind the first slug. This holds of
empty slugs too.

## Main definitions

* `Slug.HyphensApart`, of texts in which another character stands behind every hyphen;
* `Slug.MayFollow`, of what may follow a slug where slugs are joined.

## Main results

* `Slug.hyphensApart_ofString`: the hyphens of slugs;
* `Slug.intercalate_inj`: slugs that are joined by two hyphens.
-/

namespace ThemeSheet.Slug

variable {c : Char} {cs word rest : List Char} {parts : List (List Char)}

/-- Behind every hyphen of a text stands another character. -/
inductive HyphensApart : List Char → Prop
  | nil : HyphensApart []
  | cons {c : Char} {cs : List Char} (hc : c ≠ '-') (h : HyphensApart cs) : HyphensApart (c :: cs)
  | hyphen {c : Char} {cs : List Char} (hc : c ≠ '-') (h : HyphensApart (c :: cs)) :
      HyphensApart ('-' :: c :: cs)

theorem HyphensApart.of_cons (h : HyphensApart (c :: cs)) : HyphensApart cs := by
  cases h with
  | cons _ h => exact h
  | hyphen _ h => exact h

theorem HyphensApart.getLast?_ne (h : HyphensApart cs) : cs.getLast? ≠ some '-' := by
  induction h with
  | nil => simp
  | @cons c cs hc _ ih =>
    cases cs with
    | nil => simpa using hc
    | cons d cs => rwa [List.getLast?_cons_cons]
  | hyphen _ _ ih => rwa [List.getLast?_cons_cons]

/-- No two hyphens stand side by side. -/
theorem HyphensApart.not_infix (h : HyphensApart cs) : ¬['-', '-'] <:+: cs := by
  rintro ⟨before, after, rfl⟩
  induction before with
  | nil =>
    cases h with
    | cons hc _ => exact hc rfl
    | hyphen hc _ => exact hc rfl
  | cons c before ih => exact ih h.of_cons

/-! ### Words with hyphens between them -/

theorem HyphensApart.append_left (hword : '-' ∉ word) (h : HyphensApart cs) :
    HyphensApart (word ++ cs) := by
  induction word with
  | nil => exact h
  | cons c word ih =>
    rw [List.mem_cons, not_or] at hword
    exact .cons (Ne.symm hword.1) (ih hword.2)

/-- Words with hyphens between them begin like the first word. -/
theorem exists_cons_joinWith (sep : List Char) (hnil : parts ≠ []) (hne : [] ∉ parts)
    (h : ∀ word ∈ parts, '-' ∉ word) :
    ∃ c rest, Text.joinWith sep parts = c :: rest ∧ c ≠ '-' := by
  obtain ⟨word, parts, rfl⟩ := List.exists_cons_of_ne_nil hnil
  obtain ⟨c, word, rfl⟩ := List.exists_cons_of_ne_nil fun heq => hne (heq ▸ List.mem_cons_self)
  have hc : c ≠ '-' := fun heq => h _ List.mem_cons_self (heq ▸ List.mem_cons_self)
  cases parts with
  | nil => exact ⟨c, word, rfl, hc⟩
  | cons next parts => exact ⟨c, word ++ sep ++ Text.joinWith sep (next :: parts), rfl, hc⟩

theorem hyphensApart_joinWith (hne : [] ∉ parts) (h : ∀ word ∈ parts, '-' ∉ word) :
    HyphensApart (Text.joinWith ['-'] parts) := by
  induction parts with
  | nil => exact .nil
  | cons word parts ih =>
    obtain ⟨hword, hparts⟩ := List.forall_mem_cons.mp h
    have hrest := ih (fun hmem => hne (List.mem_cons_of_mem word hmem)) hparts
    by_cases hnil : parts = []
    · subst hnil
      simpa [Text.joinWith] using hrest.append_left hword
    · obtain ⟨c, rest, hstart, hc⟩ := exists_cons_joinWith ['-'] hnil
        (fun hmem => hne (List.mem_cons_of_mem word hmem)) hparts
      rw [Text.joinWith_cons_of_ne_nil hnil, List.append_assoc, hstart]
      rw [hstart] at hrest
      exact HyphensApart.append_left hword (.hyphen hc hrest)

/-! ### Slugs -/

theorem IsSlugWord.hyphen_not_mem (h : IsSlugWord word) : '-' ∉ word := by
  intro hmem
  rcases h.char_cases _ hmem with hsmall | hdigit | heq
  · revert hsmall
    decide
  · revert hdigit
    decide
  · revert heq
    decide

/-- **Behind every hyphen of a slug stands another character.** -/
theorem hyphensApart_ofString (s : String) : HyphensApart (ofString s).toList := by
  rw [ofString, String.toList_ofList, ofChars_eq]
  refine hyphensApart_joinWith (fun hnil => ?_) fun word hword => ?_
  · exact (isSlugWord_of_mem_slugWords [] hnil).ne_nil rfl
  · exact (isSlugWord_of_mem_slugWords word hword).hyphen_not_mem

/-- No slug begins with a hyphen. -/
theorem head?_ofString_ne (s : String) : (ofString s).toList.head? ≠ some '-' := by
  rw [ofString, String.toList_ofList, ofChars_eq]
  by_cases hnil : slugWords s.toList = []
  · simp [hnil, Text.joinWith]
  · obtain ⟨c, rest, hstart, hc⟩ := exists_cons_joinWith ['-'] hnil
      (fun hmem => (isSlugWord_of_mem_slugWords [] hmem).ne_nil rfl)
      fun word hword => (isSlugWord_of_mem_slugWords word hword).hyphen_not_mem
    simp [hstart, hc]

theorem hyphensApart_ofKey {k : Key} {slug : String} (h : ofKey k = .ok slug) :
    HyphensApart slug.toList := by
  rw [ofKey] at h
  obtain ⟨s, -, h⟩ := Result.exists_of_bind h
  cases h
  exact hyphensApart_ofString s

/-! ### Slugs that are joined -/

/-- What follows a slug where slugs are joined by two hyphens: nothing, or the hyphens. -/
def MayFollow (tail : List Char) : Prop := tail = [] ∨ ∃ rest, tail = '-' :: '-' :: rest

/-- What follows a slug does not begin as a slug goes on. -/
theorem MayFollow.ne_cons {tail : List Char} (h : MayFollow tail) (hc : c ≠ '-') :
    tail ≠ c :: rest ∧ tail ≠ '-' :: c :: rest := by
  rcases h with rfl | ⟨after, rfl⟩
  · exact ⟨nofun, nofun⟩
  · constructor
    · intro heq
      exact hc (List.cons.inj heq).1.symm
    · intro heq
      exact hc (List.cons.inj (List.cons.inj heq).2).1.symm

/-- **Where a slug ends** can be told from what follows. -/
theorem HyphensApart.append_inj {ds tail tail' : List Char} (h : HyphensApart cs)
    (h' : HyphensApart ds) (htail : MayFollow tail) (htail' : MayFollow tail')
    (heq : cs ++ tail = ds ++ tail') : cs = ds ∧ tail = tail' := by
  induction h generalizing ds with
  | nil =>
    cases h' with
    | nil => exact ⟨rfl, heq⟩
    | cons hd h' => exact absurd heq (htail.ne_cons hd).1
    | hyphen hd h' => exact absurd heq (htail.ne_cons hd).2
  | cons hc h ih =>
    cases h' with
    | nil => exact absurd heq.symm (htail'.ne_cons hc).1
    | cons hd h' =>
      obtain ⟨hhead, hrest⟩ := List.cons.inj heq
      obtain ⟨rfl, rfl⟩ := ih h' hrest
      exact ⟨by rw [hhead], rfl⟩
    | hyphen hd h' => exact absurd (List.cons.inj heq).1 hc
  | hyphen hc h ih =>
    cases h' with
    | nil => exact absurd heq.symm (htail'.ne_cons hc).2
    | cons hd h' => exact absurd (List.cons.inj heq).1.symm hd
    | hyphen hd h' =>
      obtain ⟨hrest, rfl⟩ := ih h' (List.cons.inj heq).2
      exact ⟨by rw [hrest], rfl⟩

/-- Slugs, each of them behind two hyphens. -/
def following (slugs : List String) : List Char :=
  slugs.flatMap fun slug => '-' :: '-' :: slug.toList

theorem mayFollow_following (slugs : List String) : MayFollow (following slugs) := by
  cases slugs with
  | nil => exact .inl rfl
  | cons slug slugs => exact .inr ⟨slug.toList ++ following slugs, rfl⟩

variable {slugs others : List String}

theorem following_of_ne_nil (h : slugs ≠ []) :
    following slugs = '-' :: '-' :: ("--".intercalate slugs).toList := by
  induction slugs with
  | nil => exact absurd rfl h
  | cons slug slugs ih =>
    by_cases hnil : slugs = []
    · subst hnil
      rw [String.intercalate_singleton]
      exact congrArg ('-' :: '-' :: ·) (List.append_nil _)
    · rw [String.intercalate_cons_of_ne_nil hnil, following, List.flatMap_cons, ← following,
        ih hnil, String.toList_append, String.toList_append, List.append_assoc]
      rfl

theorem following_inj (h : ∀ slug ∈ slugs, HyphensApart slug.toList)
    (h' : ∀ slug ∈ others, HyphensApart slug.toList) (heq : following slugs = following others) :
    slugs = others := by
  induction slugs generalizing others with
  | nil =>
    cases others with
    | nil => rfl
    | cons other others => cases heq
  | cons slug slugs ih =>
    cases others with
    | nil => cases heq
    | cons other others =>
      obtain ⟨hslug, hslugs⟩ := List.forall_mem_cons.mp h
      obtain ⟨hother, hothers⟩ := List.forall_mem_cons.mp h'
      obtain ⟨hhead, hrest⟩ := hslug.append_inj hother (mayFollow_following slugs)
        (mayFollow_following others) (List.cons.inj (List.cons.inj heq).2).2
      rw [String.toList_inj.mp hhead, ih hslugs hothers hrest]

/-- **Slugs that are joined by two hyphens can be told apart.** -/
theorem intercalate_inj (hne : slugs ≠ []) (hne' : others ≠ [])
    (h : ∀ slug ∈ slugs, HyphensApart slug.toList)
    (h' : ∀ slug ∈ others, HyphensApart slug.toList)
    (heq : "--".intercalate slugs = "--".intercalate others) : slugs = others := by
  refine following_inj h h' ?_
  rw [following_of_ne_nil hne, following_of_ne_nil hne', heq]

end ThemeSheet.Slug
