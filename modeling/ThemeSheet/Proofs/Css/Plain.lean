import ThemeSheet.Proofs.Css.Nesting

/-!
# Plain texts

In a plain text no string, no address, no function and no escape begins: it has no quote, no opening
parenthesis and no backslash. If it has no comment either, every step of the lexer makes one lexeme
of it. A few characters, the marks, are lexemes of their own wherever they stand, and no step that
begins before a mark goes beyond it. What begins with another character is an atom, and a calm one
unless it is an equals sign.

## Main definitions

* `isPlain`, `isMark`, and `markLexeme`, the lexeme of a mark;
* `PassesOver`, of a rest before which no mark stands;
* `StepCase`, the cases of a step.

## Main results

* `step_of_isMark`: a mark is a lexeme of its own;
* `step_plain`: what a step makes of a plain text.
-/

namespace ThemeSheet.Css

open Text (isAsciiDigit)

/-! ### Characters -/

/-- Whether no string, address, function or escape begins with a character or because of it. -/
def isPlain (c : Char) : Bool := c != '"' && c != '\x27' && c != '(' && c != '\\'

/-- Whether a character is a lexeme of its own wherever it stands in a plain text. -/
def isMark (c : Char) : Bool := [';', '&', ')', '[', ']', '\x7b', '\x7d'].contains c

/-- The lexeme of a mark. -/
def markLexeme (c : Char) : Lexeme :=
  match openingBracket? c, closingBracket? c with
  | some kind, _ => .opening (.bracket kind)
  | none, some kind => .closing kind
  | none, none => .atom (.literal (String.ofList [c]))

theorem isMark_iff {c : Char} : isMark c = true ↔ c = ';' ∨ c = '&' ∨ c = ')' ∨ c = '[' ∨ c = ']' ∨
    c = '\x7b' ∨ c = '\x7d' := by
  simp [isMark]

/-- A class of characters that are all plain, seen from a character of the class. -/
theorem isPlain_of {p : Char → Bool} {c : Char} (h : p c = true)
    (hp : ['"', '\x27', '(', '\\'].all (fun d => !p d) = true) : isPlain c = true := by
  have hne : ∀ d ∈ ['"', '\x27', '(', '\\'], c ≠ d := by
    rintro d hd rfl
    have hc := List.all_eq_true.mp hp c hd
    rw [h] at hc
    cases hc
  simpa [isPlain, and_assoc] using hne

/-- A class of characters without marks, seen from a character of the class. -/
theorem isMark_eq_false_of {p : Char → Bool} {c : Char} (h : p c = true)
    (hp : [';', '&', ')', '[', ']', '\x7b', '\x7d'].all (fun d => !p d) = true) :
    isMark c = false := by
  rw [Bool.eq_false_iff]
  intro hmark
  have hc := List.all_eq_true.mp hp c (by simpa [isMark] using hmark)
  rw [h] at hc
  cases hc

theorem isMark_of_isNameChar {c : Char} (h : isNameChar c = true) : isMark c = false :=
  isMark_eq_false_of h (by decide)

theorem isMark_of_isSpace {c : Char} (h : isSpace c = true) : isMark c = false :=
  isMark_eq_false_of h (by decide)

theorem isMark_of_isHex {c : Char} (h : isHex c = true) : isMark c = false :=
  isMark_eq_false_of h (by decide)

theorem isMark_of_isAsciiDigit {c : Char} (h : isAsciiDigit c = true) : isMark c = false :=
  isMark_eq_false_of h (by decide)

/-! ### Passing over -/

/-- The rest is what is left of a text after characters of which none is a mark. -/
def PassesOver (cs rest : List Char) : Prop :=
  ∃ gone, cs = gone ++ rest ∧ ∀ c ∈ gone, isMark c = false

namespace PassesOver

variable {cs rest more : List Char} {c : Char}

theorem refl (cs : List Char) : PassesOver cs cs := ⟨[], rfl, by simp⟩

theorem trans (h : PassesOver cs rest) (h' : PassesOver rest more) : PassesOver cs more := by
  obtain ⟨gone, rfl, hgone⟩ := h
  obtain ⟨gone', rfl, hgone'⟩ := h'
  refine ⟨gone ++ gone', by simp, fun c hc => ?_⟩
  rcases List.mem_append.mp hc with hc | hc
  · exact hgone c hc
  · exact hgone' c hc

theorem cons (hc : isMark c = false) (h : PassesOver cs rest) : PassesOver (c :: cs) rest := by
  obtain ⟨gone, rfl, hgone⟩ := h
  exact ⟨c :: gone, rfl, List.forall_mem_cons.mpr ⟨hc, hgone⟩⟩

theorem dropWhile {p : Char → Bool} (hp : ∀ c, p c = true → isMark c = false) (cs : List Char) :
    PassesOver cs (cs.dropWhile p) :=
  ⟨cs.takeWhile p, List.takeWhile_append_dropWhile.symm, fun c hc =>
    hp c (List.all_eq_true.mp List.all_takeWhile c hc)⟩

/-- Characters of a class, of which no more than some are taken. -/
theorem drop_takeWhile {p : Char → Bool} (hp : ∀ c, p c = true → isMark c = false) (n : Nat)
    (cs : List Char) : PassesOver cs (cs.drop ((cs.take n).takeWhile p).length) := by
  have hstart := (List.takeWhile_prefix p).trans (List.take_prefix n cs)
  exact ⟨_, (List.prefix_iff_eq_append.mp hstart).symm, fun c hc =>
    hp c (List.all_eq_true.mp List.all_takeWhile c hc)⟩

/-- A rest that is left of the tail is what is left after passing over some of the tail. -/
theorem tail (h : PassesOver (c :: cs) rest) (hs : rest <:+ cs) : PassesOver cs rest := by
  obtain ⟨gone, heq, hgone⟩ := h
  cases gone with
  | nil =>
    have hlength := hs.length_le
    rw [List.nil_append] at heq
    rw [← heq, List.length_cons] at hlength
    omega
  | cons d gone =>
    cases heq
    exact ⟨gone, rfl, fun e he => hgone e (List.mem_cons_of_mem c he)⟩

theorem suffix (h : PassesOver cs rest) : rest <:+ cs := by
  obtain ⟨gone, rfl, -⟩ := h
  exact List.suffix_append gone rest

/-- A mark is not passed over. -/
theorem mem (h : PassesOver cs rest) (hc : isMark c = true) (hmem : c ∈ cs) : c ∈ rest := by
  obtain ⟨gone, rfl, hgone⟩ := h
  rcases List.mem_append.mp hmem with hmem | hmem
  · rw [hgone c hmem] at hc
    cases hc
  · exact hmem

end PassesOver

/-! ### Readers -/

section Readers

variable {c : Char} {cs rest : List Char}

theorem startsEscape_of_plain (h : ∀ c ∈ cs, isPlain c = true) : startsEscape cs = false := by
  cases cs with
  | nil => rfl
  | cons c rest =>
    have hc := h c List.mem_cons_self
    unfold startsEscape
    split
    next heq =>
      cases heq
      cases hc
    next => rfl

/-- A name is passed over. -/
theorem passesOver_name (h : ∀ c ∈ cs, isPlain c = true) : PassesOver cs (name cs).2 := by
  fun_induction name cs with
  | case1 => exact PassesOver.refl _
  | case2 c rest hc ih =>
    exact (ih fun d hd => h d (List.mem_cons_of_mem _ hd)).cons (isMark_of_isNameChar hc)
  | case3 c rest hc hescape ih =>
    rw [startsEscape_of_plain h] at hescape
    cases hescape
  | case4 c rest hc hescape => exact PassesOver.refl _

/-- A range of code points is passed over. -/
theorem passesOver_afterRange (cs : List Char) : PassesOver cs (afterRange cs) := by
  have hhex : ∀ c, isHex c = true → isMark c = false := fun _ => isMark_of_isHex
  have hmarks : ∀ c, (c == '?') = true → isMark c = false := by
    intro c hc
    rw [eq_of_beq hc]
    decide
  unfold afterRange
  dsimp only
  split
  · split
    next d rest heq =>
      split
      · refine (PassesOver.drop_takeWhile hhex 6 cs).trans ?_
        rw [heq]
        exact (PassesOver.drop_takeWhile hhex 6 (d :: rest)).cons (by decide)
      · exact PassesOver.drop_takeWhile hhex 6 cs
    next => exact PassesOver.drop_takeWhile hhex 6 cs
  · exact (PassesOver.drop_takeWhile hhex 6 cs).trans (PassesOver.drop_takeWhile hmarks _ _)

theorem passesOver_digits (cs : List Char) : PassesOver cs (Numeral.digits cs).2 :=
  PassesOver.dropWhile (fun _ => isMark_of_isAsciiDigit) cs

theorem passesOver_sign (cs : List Char) : PassesOver cs (Numeral.sign cs).2 := by
  unfold Numeral.sign
  split
  · exact (PassesOver.refl _).cons (by decide)
  · exact (PassesOver.refl _).cons (by decide)
  · exact PassesOver.refl _

theorem passesOver_fraction (cs : List Char) : PassesOver cs (Numeral.fraction cs).2 := by
  unfold Numeral.fraction
  split
  · split
    · exact PassesOver.refl _
    · exact (passesOver_digits _).cons (by decide)
  · exact PassesOver.refl _

theorem passesOver_exponent (cs : List Char) : PassesOver cs (Numeral.exponent cs).2 := by
  unfold Numeral.exponent
  split
  next c rest =>
    split
    next hc =>
      dsimp only
      split
      · exact PassesOver.refl _
      · refine ((passesOver_sign rest).trans (passesOver_digits _)).cons ?_
        rcases hc with rfl | rfl <;> decide
    next => exact PassesOver.refl _
  next => exact PassesOver.refl _

/-- A numeral is passed over, and its digits before the point are digits of the text. -/
theorem passesOver_numeral? {r : Number × List Char × List Char} (h : numeral? cs = some r) :
    PassesOver cs r.2.2 ∧ r.2.1 <:+: cs ∧ ∀ d ∈ r.2.1, isAsciiDigit d = true := by
  rw [numeral?] at h
  dsimp only at h
  split at h
  · cases h
  · cases h
    refine ⟨?_, ?_, fun d hd => List.all_eq_true.mp List.all_takeWhile d hd⟩
    · exact (((passesOver_sign cs).trans (passesOver_digits _)).trans
        (passesOver_fraction _)).trans (passesOver_exponent _)
    · exact (List.takeWhile_prefix isAsciiDigit).isInfix.trans (Numeral.sign_suffix cs).isInfix

/-- A unit or a percent sign is passed over. -/
theorem passesOver_measured (n : Number) (h : ∀ c ∈ rest, isPlain c = true) :
    PassesOver rest (measured n rest).2 := by
  unfold measured
  split
  · exact passesOver_name h
  · split
    · exact (PassesOver.refl _).cons (by decide)
    · exact PassesOver.refl _

/-- An atom of characters that begin a long literal. -/
theorem passesOver_longLiteral {l : List Char} (hl : l ∈ longLiterals)
    (h : l.isPrefixOf (c :: rest) = true) : PassesOver rest (rest.drop (l.length - 1)) := by
  rw [List.isPrefixOf_iff_prefix] at h
  have hall : longLiterals.all (fun l => l.all fun d => !isMark d) = true := by decide
  have hmarks : ∀ d ∈ l, isMark d = false := fun d hd => by
    simpa using List.all_eq_true.mp (List.all_eq_true.mp hall l hl) d hd
  cases l with
  | nil => exact PassesOver.refl _
  | cons a l =>
    rw [List.cons_prefix_cons] at h
    exact ⟨l, (List.prefix_iff_eq_append.mp h.2).symm,
      fun d hd => hmarks d (List.mem_cons_of_mem a hd)⟩

/-! ### One step -/

/-- The cases of a step, in the order in which they are tried, with what each makes of the text. -/
inductive StepCase (c : Char) (rest : List Char) : Except Refusal (List Lexeme × List Char) → Prop
  | blank (h : isSpace c = true) :
      StepCase c rest (.ok ([.atom .blank], rest.dropWhile isSpace))
  | range (h : startsRange (c :: rest) = true) :
      StepCase c rest (.ok ([.atom .unicodeRange], afterRange (rest.drop 1)))
  | arrow (h : ['-', '-', '>'] <+: c :: rest) :
      StepCase c rest (.ok ([.atom (.literal "-->")], rest.drop 2))
  | ident (h : startsIdent (c :: rest) = true) : StepCase c rest (.ok (identLexemes (c :: rest)))
  | tooLong {n : Number} {whole tail : List Char}
      (h : numeral? (c :: rest) = some (n, whole, tail))
      (hlong : Decimal.integerDigitLimit < whole.length) :
      StepCase c rest (.error (.numeralTooLong whole.length))
  | number {n : Number} {whole tail : List Char}
      (h : numeral? (c :: rest) = some (n, whole, tail)) :
      StepCase c rest (.ok ([.atom (measured n tail).1], (measured n tail).2))
  | comment (h : ['/', '*'] <+: c :: rest) :
      StepCase c rest (.ok ([.atom .comment], afterComment (rest.drop 1)))
  | sign : StepCase c rest (.ok (signLexemes c rest))

theorem stepCase (c : Char) (rest : List Char) : StepCase c rest (step c rest) := by
  rw [step]
  split
  next h => exact .blank h
  split
  next h => exact .range h
  split
  next h => exact .arrow (List.isPrefixOf_iff_prefix.mp h)
  split
  next h => exact .ident h
  split
  next h =>
    split
    next hlong => exact .tooLong h (of_decide_eq_true (Bool.and_eq_true_iff.mp hlong).2)
    next => exact .number h
  next =>
    split
    next h => exact .comment (List.isPrefixOf_iff_prefix.mp h)
    next => exact .sign

theorem startsRange_eq_false (h : c ≠ 'u') (h' : c ≠ 'U') (rest : List Char) :
    startsRange (c :: rest) = false := by
  unfold startsRange
  split
  next heq =>
    cases heq
    simp [h, h']
  next => rfl

theorem numeral?_eq_none (hc : isAsciiDigit c = false) (hsign : c ≠ '-' ∧ c ≠ '+')
    (hpoint : c ≠ '.') (rest : List Char) : numeral? (c :: rest) = none := by
  have hs : Numeral.sign (c :: rest) = (false, c :: rest) := by
    unfold Numeral.sign
    split
    next heq => cases heq; exact absurd rfl hsign.1
    next heq => cases heq; exact absurd rfl hsign.2
    next => rfl
  have hd : Numeral.digits (c :: rest) = ([], c :: rest) := by
    simp [Numeral.digits, hc]
  have hf : Numeral.fraction (c :: rest) = ([], c :: rest) := by
    unfold Numeral.fraction
    split
    next heq => cases heq; exact absurd rfl hpoint
    next => rfl
  simp [numeral?, hs, hd, hf]

/-- **A mark is a lexeme of its own.** -/
theorem step_of_isMark (h : isMark c = true) (rest : List Char) :
    step c rest = .ok ([markLexeme c], rest) := by
  have hcases := isMark_iff.mp h
  obtain ⟨hu, hU, hdigit, hsign, hpoint⟩ : c ≠ 'u' ∧ c ≠ 'U' ∧ isAsciiDigit c = false ∧
      (c ≠ '-' ∧ c ≠ '+') ∧ c ≠ '.' := by
    rcases hcases with rfl | rfl | rfl | rfl | rfl | rfl | rfl <;> decide
  rw [step, startsRange_eq_false hu hU, numeral?_eq_none hdigit hsign hpoint]
  rcases hcases with rfl | rfl | rfl | rfl | rfl | rfl | rfl <;> rfl

/-- The delimiters that no value may hold are single characters. -/
theorem contains_unsafeLiterals {c : Char} (h : isMark c = false) (hplain : isPlain c = true)
    (hne : c ≠ '=') : unsafeLiterals.contains (String.ofList [c]) = false := by
  rw [Bool.eq_false_iff]
  intro hmem
  have hc : c = '&' ∨ c = '=' ∨ c = '\\' ∨ c = '\x7d' := by
    simpa [unsafeLiterals, String.ext_iff] using hmem
  rcases hc with rfl | rfl | rfl | rfl
  · cases h
  · exact hne rfl
  · cases hplain
  · cases h

/-- The brackets but the round opening one are marks. -/
theorem openingBracket?_eq_none (hmark : isMark c = false) (hplain : isPlain c = true) :
    openingBracket? c = none := by
  have hround : c ≠ '(' := by rintro rfl; cases hplain
  have hsquare : c ≠ '[' := by rintro rfl; cases hmark
  have hcurly : c ≠ '\x7b' := by rintro rfl; cases hmark
  rw [openingBracket?, if_neg hround, if_neg hsquare, if_neg hcurly]

theorem closingBracket?_eq_none (hmark : isMark c = false) : closingBracket? c = none := by
  have hround : c ≠ ')' := by rintro rfl; cases hmark
  have hsquare : c ≠ ']' := by rintro rfl; cases hmark
  have hcurly : c ≠ '\x7d' := by rintro rfl; cases hmark
  rw [closingBracket?, if_neg hround, if_neg hsquare, if_neg hcurly]

/-- What begins neither a name nor a number is an atom, if it is no mark. -/
theorem signLexemes_plain (hplain : ∀ d ∈ c :: rest, isPlain d = true) (hmark : isMark c = false) :
    PassesOver rest (signLexemes c rest).2 ∧ ∃ a, (signLexemes c rest).1 = [.atom a] ∧
      (c ≠ '=' → ∀ property inMath, safeAtom property inMath a = true) := by
  obtain ⟨hc, hrest⟩ := List.forall_mem_cons.mp hplain
  have hquote : ¬ (c = '"' ∨ c = '\x27') := by
    rintro (rfl | rfl) <;> cases hc
  unfold signLexemes
  split
  · split
    · exact ⟨passesOver_name hrest, _, rfl, fun _ _ _ => rfl⟩
    · exact ⟨PassesOver.refl _, _, rfl, fun _ _ _ => rfl⟩
  split
  · split
    · split
      · exact ⟨passesOver_name hrest, _, rfl, fun _ _ _ => rfl⟩
      · exact ⟨PassesOver.refl _, _, rfl, fun _ _ _ => rfl⟩
    · exact ⟨PassesOver.refl _, _, rfl, fun _ _ _ => rfl⟩
  rw [openingBracket?_eq_none hmark hc, closingBracket?_eq_none hmark]
  dsimp only
  cases hfind : longLiterals.find? fun l => l.isPrefixOf (c :: rest) with
  | none =>
    refine ⟨PassesOver.refl _, _, rfl, fun hne _ _ => ?_⟩
    rw [safeAtom, contains_unsafeLiterals hmark hc hne]
    rfl
  | some l =>
    have hmem := List.mem_of_find?_eq_some hfind
    have hstart := List.find?_some hfind
    refine ⟨passesOver_longLiteral hmem hstart, _, rfl, fun _ _ _ => ?_⟩
    have hsafe : ∀ l ∈ longLiterals, unsafeLiterals.contains (String.ofList l) = false := by decide
    rw [safeAtom, hsafe l hmem]
    rfl

/-- A step that does not begin at a mark makes an atom, and a calm one unless it begins at an equals
sign. It passes over what it takes. -/
theorem step_of_not_isMark {r : List Lexeme × List Char}
    (hplain : ∀ d ∈ c :: rest, isPlain d = true) (hcomment : ¬ ['/', '*'] <+: c :: rest)
    (hmark : isMark c = false) (h : step c rest = .ok r) :
    PassesOver (c :: rest) r.2 ∧ ∃ a, r.1 = [.atom a] ∧
      (c ≠ '=' → ∀ property inMath, safeAtom property inMath a = true) := by
  have hstep := stepCase c rest
  rw [h] at hstep
  cases hstep with
  | blank =>
    refine ⟨?_, _, rfl, fun _ _ _ => rfl⟩
    exact (PassesOver.dropWhile (fun _ => isMark_of_isSpace) rest).cons hmark
  | range hrange =>
    refine ⟨?_, _, rfl, fun _ _ _ => rfl⟩
    have hplus : PassesOver rest (rest.drop 1) := by
      unfold startsRange at hrange
      split at hrange
      next heq =>
        cases heq
        exact (PassesOver.refl _).cons (by decide)
      next => cases hrange
    exact (hplus.trans (passesOver_afterRange _)).cons hmark
  | arrow harrow =>
    refine ⟨?_, _, rfl, fun _ _ _ => rfl⟩
    obtain ⟨tail, htail⟩ := harrow
    cases htail
    exact (((PassesOver.refl tail).cons (by decide)).cons (by decide)).cons hmark
  | ident hident =>
    have hname := passesOver_name hplain
    rw [identLexemes]
    dsimp only
    split
    next tail heq =>
      rw [heq] at hname
      cases hplain '(' (hname.suffix.subset List.mem_cons_self)
    next => exact ⟨hname, _, rfl, fun _ _ _ => rfl⟩
  | @number n whole tail hnumeral =>
    have hpass := (passesOver_numeral? hnumeral).1
    have htail : ∀ d ∈ tail, isPlain d = true := fun d hd => hplain d (hpass.suffix.subset hd)
    refine ⟨hpass.trans (passesOver_measured n htail), _, rfl, fun _ _ _ => ?_⟩
    unfold measured
    split
    · rfl
    · split <;> rfl
  | comment hstart => exact absurd hstart hcomment
  | sign =>
    obtain ⟨hpass, a, ha, hsafe⟩ := signLexemes_plain hplain hmark
    exact ⟨hpass.cons hmark, a, ha, hsafe⟩

/-- **A step through a plain text** makes one lexeme. If it begins at a mark, this is the lexeme of
the mark; else it is an atom, and a calm one unless it begins at an equals sign. -/
theorem step_plain {r : List Lexeme × List Char} (hplain : ∀ d ∈ c :: rest, isPlain d = true)
    (hcomment : ¬ ['/', '*'] <+: c :: rest) (h : step c rest = .ok r) :
    PassesOver rest r.2 ∧ ∃ l, r.1 = [l] ∧ (isMark c = true → l = markLexeme c) ∧
      (isMark c = false → ∃ a, l = .atom a ∧
        (c ≠ '=' → ∀ property inMath, safeAtom property inMath a = true)) := by
  by_cases hmark : isMark c = true
  · rw [step_of_isMark hmark] at h
    cases h
    exact ⟨PassesOver.refl _, _, rfl, fun _ => rfl, fun hfalse => absurd hmark (by simp [hfalse])⟩
  · rw [Bool.not_eq_true] at hmark
    obtain ⟨hpass, a, ha, hsafe⟩ := step_of_not_isMark hplain hcomment hmark h
    exact ⟨hpass.tail (step_suffix h), _, ha, fun htrue => absurd htrue (by simp [hmark]),
      fun _ => ⟨a, rfl, hsafe⟩⟩

end Readers

end ThemeSheet.Css
