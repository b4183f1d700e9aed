import ThemeSheet.Proofs.Css.Stripping

/-!
# Texts with a line break after every character

Line breaks in a value are overlooked when it is judged, but not when it is read as a style. Here
they are put wherever they can be, so that only digits are left together. Then there are neither
functions nor strings nor any token of two characters: a name has one character, a quote is broken
by the line break after it, and a bracket or an equals sign stands for itself.

## Main definitions

* `spread`, the text with its line breaks;
* `isBrittle`, of the characters that lose their harmlessness;
* `Tells`, of the lexemes that tell what the text has of them.

## Main results

* `stripped_spread`: the line breaks are overlooked;
* `lexemes_spread`: what is read, if anything is.
-/

namespace ThemeSheet.Css

open Text (isAsciiDigit)

/-- Whether a text begins with a digit. -/
def startsDigit (cs : List Char) : Bool := cs.head?.any isAsciiDigit

/-- A text with a line break after every character but between two digits. -/
def spread : List Char → List Char
  | [] => []
  | c :: rest =>
    if isAsciiDigit c && startsDigit rest then c :: spread rest else c :: '\n' :: spread rest

/-- Whether a character is harmless only because of what follows it. -/
def isBrittle (c : Char) : Bool := c == '"' || c == '\x27' || c == '(' || c == '='

section

variable {c : Char} {cs rest n : List Char}

theorem isBrittle_iff : isBrittle c = true ↔ c = '"' ∨ c = '\x27' ∨ c = '(' ∨ c = '=' := by
  simp [isBrittle, or_assoc]

/-! ### The line breaks are overlooked -/

theorem filter_spread (h : ∀ c ∈ n, c ≠ '\n' ∧ c ≠ '\r' ∧ c ≠ '\t') :
    (spread n).filter (fun c => c ≠ '\n' ∧ c ≠ '\r' ∧ c ≠ '\t') = n := by
  induction n with
  | nil => rfl
  | cons c rest ih =>
    obtain ⟨hc, hrest⟩ := List.forall_mem_cons.mp h
    rw [spread]
    split
    · rw [List.filter_cons_of_pos (by simpa using hc), ih hrest]
    · rw [List.filter_cons_of_pos (by simpa using hc), List.filter_cons_of_neg (by simp), ih hrest]

/-- **The line breaks are overlooked** when the text is stripped. -/
theorem stripped_spread (h : stripped n = n) : stripped (spread n) = n := by
  refine stripped_of_filter_eq h (filter_spread fun c hc => ?_)
  rw [← h] at hc
  exact kept_of_mem_stripped hc

/-- What becomes of a character that is not the first half of a line break. -/
def settle (c : Char) : Char :=
  if c = '\x0c' then '\n' else if c = '\x00' then '\uFFFD' else c

theorem normalize_cons (hc : c ≠ '\r') (rest : List Char) :
    normalize (c :: rest) = settle c :: normalize rest := by
  rw [normalize]
  · simp [settle, hc]
  · intro _ heq
    exact absurd heq hc

theorem isAsciiDigit_settle (c : Char) : isAsciiDigit (settle c) = isAsciiDigit c := by
  rw [settle]
  split
  next heq => rw [heq]; decide
  split
  next heq => rw [heq]; decide
  rfl

theorem startsDigit_map_settle (cs : List Char) : startsDigit (cs.map settle) = startsDigit cs := by
  cases cs with
  | nil => rfl
  | cons c rest => exact isAsciiDigit_settle c

theorem normalize_spread (h : ∀ c ∈ n, c ≠ '\r') :
    normalize (spread n) = spread (n.map settle) := by
  induction n with
  | nil => rfl
  | cons c rest ih =>
    obtain ⟨hc, hrest⟩ := List.forall_mem_cons.mp h
    rw [List.map_cons, spread, spread, isAsciiDigit_settle, startsDigit_map_settle]
    split
    · rw [normalize_cons hc, ih hrest]
    · rw [normalize_cons hc, normalize_cons (by decide), ih hrest]
      rfl

/-! ### One step -/

theorem name_newline (rest : List Char) : name ('\n' :: rest) = ([], '\n' :: rest) := by
  rw [name]
  rfl

theorem fraction_newline (rest : List Char) :
    Numeral.fraction ('\n' :: rest) = ([], '\n' :: rest) := rfl

theorem digits_newline (rest : List Char) :
    Numeral.digits ('\n' :: rest) = ([], '\n' :: rest) := by
  simp [Numeral.digits, isAsciiDigit]

theorem numeral?_before_newline (hc : isAsciiDigit c = false) (rest : List Char) :
    numeral? (c :: '\n' :: rest) = none := by
  by_cases hsign : c ≠ '-' ∧ c ≠ '+'
  · by_cases hpoint : c ≠ '.'
    · exact numeral?_eq_none hc hsign hpoint _
    · have hpoint : c = '.' := by simpa using hpoint
      subst hpoint
      have hd : Numeral.digits ('.' :: '\n' :: rest) = ([], '.' :: '\n' :: rest) := by
        simp [Numeral.digits, isAsciiDigit]
      have hf : Numeral.fraction ('.' :: '\n' :: rest) = ([], '.' :: '\n' :: rest) := by
        rw [Numeral.fraction, digits_newline]
        rfl
      simp [numeral?, Numeral.sign, hd, hf]
  · have hs : (Numeral.sign (c :: '\n' :: rest)).2 = '\n' :: rest := by
      rcases Classical.not_and_iff_not_or_not.mp hsign with h | h
      · rw [Classical.not_not.mp h]
        rfl
      · rw [Classical.not_not.mp h]
        rfl
    simp [numeral?, hs, digits_newline, fraction_newline]

theorem longLiterals_before_newline (c : Char) (rest : List Char) :
    longLiterals.find? (fun l => l.isPrefixOf (c :: '\n' :: rest)) = none := by
  simp [longLiterals, List.isPrefixOf]

/-- A sign before a line break is a lexeme, and a harmful one if it is brittle. -/
theorem signLexemes_before_newline (c : Char) (rest : List Char) :
    ∃ l, signLexemes c ('\n' :: rest) = ([l], '\n' :: rest) ∧ l.isFunction = false ∧
      (isBrittle c = true → l.isHarmful = true) := by
  rw [signLexemes]
  split
  next heq =>
    refine ⟨_, rfl, rfl, fun h => ?_⟩
    rw [heq] at h
    cases h
  split
  next heq =>
    refine ⟨_, rfl, rfl, fun h => ?_⟩
    rw [heq] at h
    cases h
  split
  next heq =>
    have hread : quotedString c ('\n' :: rest) = ⟨none, true, '\n' :: rest⟩ := by
      unfold quotedString
      rcases heq with rfl | rfl <;> rfl
    rw [hread]
    exact ⟨_, rfl, rfl, fun _ => rfl⟩
  next hquote =>
    cases hopening : openingBracket? c with
    | some kind => exact ⟨_, rfl, rfl, fun _ => rfl⟩
    | none =>
      cases hclosing : closingBracket? c with
      | some kind => exact ⟨_, rfl, rfl, fun _ => rfl⟩
      | none =>
        dsimp only
        rw [longLiterals_before_newline]
        refine ⟨_, rfl, rfl, fun h => ?_⟩
        rcases isBrittle_iff.mp h with rfl | rfl | rfl | rfl
        · exact absurd (.inl rfl) hquote
        · exact absurd (.inr rfl) hquote
        · cases hopening
        · rfl

/-- **A step before a line break** makes one lexeme of one character. -/
theorem step_before_newline (hspace : isSpace c = false) (hdigit : isAsciiDigit c = false)
    (hescape : c ≠ '\\') (rest : List Char) :
    ∃ l, step c ('\n' :: rest) = .ok ([l], '\n' :: rest) ∧ l.isFunction = false ∧
      (isBrittle c = true → l.isHarmful = true) := by
  have hrange : startsRange (c :: '\n' :: rest) = false := by
    unfold startsRange
    split
    next heq => cases heq
    next => rfl
  have harrow : ['-', '-', '>'].isPrefixOf (c :: '\n' :: rest) = false := by
    simp [List.isPrefixOf]
  have hcomment : ['/', '*'].isPrefixOf (c :: '\n' :: rest) = false := by
    simp [List.isPrefixOf]
  by_cases hname : isNameStart c = true
  · have hident : startsIdent (c :: '\n' :: rest) = true := by
      unfold startsIdent
      split
      next heq => cases heq
      next heq => cases heq; cases hname
      next heq => cases heq; rw [hname]; rfl
    have hread : identLexemes (c :: '\n' :: rest) =
        ([.atom (.ident (String.ofList [c]))], '\n' :: rest) := by
      have hchar : isNameChar c = true := by rw [isNameChar, hname]; rfl
      have hone : name (c :: '\n' :: rest) = ([c], '\n' :: rest) := by
        rw [name, if_pos hchar, name_newline]
      rw [identLexemes, hone]
      rfl
    refine ⟨.atom (.ident (String.ofList [c])), ?_, rfl, fun h => ?_⟩
    · rw [step, hspace, hrange, harrow, hident, hread]
      rfl
    · rcases isBrittle_iff.mp h with rfl | rfl | rfl | rfl <;> cases hname
  · rw [Bool.not_eq_true] at hname
    have hident : startsIdent (c :: '\n' :: rest) = false := by
      unfold startsIdent
      split
      next heq => cases heq
      next heq => cases heq; rfl
      next heq =>
        cases heq
        rw [hname, Bool.false_or]
        unfold startsEscape
        split
        next heq => cases heq; exact absurd rfl hescape
        next => rfl
    obtain ⟨l, hl, hfun, hharm⟩ := signLexemes_before_newline c rest
    refine ⟨l, ?_, hfun, hharm⟩
    rw [step, hspace, hrange, harrow, hident, numeral?_before_newline hdigit, hcomment, hl]
    rfl

/-! ### Digits -/

theorem isNameStart_of_isAsciiDigit (h : isAsciiDigit c = true) : isNameStart c = false := by
  have hrange : 48 ≤ c.val.toNat ∧ c.val.toNat ≤ 57 := by
    simpa [isAsciiDigit, Char.le_def, UInt32.le_iff_toNat_le] using h
  rw [Bool.eq_false_iff]
  intro hname
  rw [isNameStart, Bool.or_eq_true, Bool.or_eq_true] at hname
  rcases hname with (halpha | hline) | hlarge
  · have hletter : (decide (65 ≤ c.val ∧ c.val ≤ 90) || decide (97 ≤ c.val) &&
        decide (c.val ≤ 122)) = true := halpha
    simp only [Bool.or_eq_true, Bool.and_eq_true, decide_eq_true_eq,
      UInt32.le_iff_toNat_le] at hletter
    change 65 ≤ c.val.toNat ∧ c.val.toNat ≤ 90 ∨ 97 ≤ c.val.toNat ∧ c.val.toNat ≤ 122 at hletter
    omega
  · rw [eq_of_beq hline] at h
    cases h
  · have hlarge : 127 < c.val.toNat := of_decide_eq_true hlarge
    omega

/-- Digits that stand together are left together. -/
theorem spread_digits (hc : isAsciiDigit c = true) :
    spread (c :: rest) = (c :: rest).takeWhile isAsciiDigit ++
      '\n' :: spread ((c :: rest).dropWhile isAsciiDigit) := by
  induction rest generalizing c with
  | nil => simp [spread, startsDigit, hc]
  | cons d rest ih =>
    rw [spread, hc, Bool.true_and, List.takeWhile_cons_of_pos hc, List.dropWhile_cons_of_pos hc]
    by_cases hd : isAsciiDigit d = true
    · have hstarts : startsDigit (d :: rest) = true := hd
      rw [if_pos hstarts, ih hd]
      rfl
    · have hstarts : ¬ startsDigit (d :: rest) = true := hd
      rw [if_neg hstarts, List.takeWhile_cons_of_neg hd, List.dropWhile_cons_of_neg hd]
      rfl

/-- Digits before a line break are read as an integer. -/
theorem numeral?_digits (hdigits : ∀ d ∈ c :: cs, isAsciiDigit d = true) (rest : List Char) :
    ∃ n : Number, n.integer.isSome = true ∧
      numeral? (c :: cs ++ '\n' :: rest) = some (n, c :: cs, '\n' :: rest) := by
  have hc := hdigits c List.mem_cons_self
  have hsign : Numeral.sign (c :: cs ++ '\n' :: rest) = (false, c :: cs ++ '\n' :: rest) := by
    unfold Numeral.sign
    split
    next heq => cases heq; cases hc
    next heq => cases heq; cases hc
    next => rfl
  have hwhole : Numeral.digits (c :: cs ++ '\n' :: rest) = (c :: cs, '\n' :: rest) := by
    rw [Numeral.digits, List.takeWhile_append_of_pos hdigits, List.dropWhile_append_of_pos hdigits]
    simp [isAsciiDigit]
  have hexponent : Numeral.exponent ('\n' :: rest) = (none, '\n' :: rest) := by
    simp [Numeral.exponent]
  refine ⟨⟨Numeral.float false (c :: cs) [] none,
    some (Binary64.signed false (Numeral.value (c :: cs)))⟩, rfl, ?_⟩
  rw [numeral?, hsign]
  dsimp only
  rw [hwhole]
  dsimp only
  rw [fraction_newline]
  dsimp only
  rw [hexponent]
  rfl

/-- **A step through digits before a line break** fails if they are too many, and else makes one
number of them. -/
theorem step_digits (hdigits : ∀ d ∈ c :: cs, isAsciiDigit d = true) (rest : List Char)
    {r : List Lexeme × List Char} (h : step c (cs ++ '\n' :: rest) = .ok r) :
    (c :: cs).length ≤ Decimal.integerDigitLimit ∧
      ∃ n : Number, r = ([.atom (.number n)], '\n' :: rest) := by
  have hc := hdigits c List.mem_cons_self
  obtain ⟨n, hinteger, hnumeral⟩ := numeral?_digits hdigits rest
  rw [List.cons_append] at hnumeral
  have hspace : isSpace c = false := by
    rw [Bool.eq_false_iff]
    intro hs
    simp only [isSpace, Bool.or_eq_true, beq_iff_eq] at hs
    rcases hs with (rfl | rfl) | rfl <;> cases hc
  have hrange : startsRange (c :: (cs ++ '\n' :: rest)) = false :=
    startsRange_eq_false (by rintro rfl; cases hc) (by rintro rfl; cases hc) _
  have harrow : ['-', '-', '>'].isPrefixOf (c :: (cs ++ '\n' :: rest)) = false := by
    have hne : ('-' == c) = false := by
      rw [beq_eq_false_iff_ne]
      rintro rfl
      cases hc
    rw [List.isPrefixOf, hne, Bool.false_and]
  have hident : startsIdent (c :: (cs ++ '\n' :: rest)) = false := by
    unfold startsIdent
    split
    next heq => cases heq
    next heq => cases heq; cases hc
    next heq =>
      cases heq
      rw [isNameStart_of_isAsciiDigit hc, Bool.false_or]
      unfold startsEscape
      split
      next heq => cases heq; cases hc
      next => rfl
  rw [step, hspace, hrange, harrow, hident, hnumeral] at h
  dsimp only at h
  rw [hinteger, Bool.true_and] at h
  simp only [Bool.false_eq_true, if_false, decide_eq_true_eq] at h
  split at h
  · cases h
  next hshort =>
    cases h
    exact ⟨by omega, n, rfl⟩

/-! ### Blanks -/

theorem isAsciiDigit_of_isSpace (h : isSpace c = true) : isAsciiDigit c = false := by
  simp only [isSpace, Bool.or_eq_true, beq_iff_eq] at h
  rcases h with (rfl | rfl) | rfl <;> rfl

/-- The blanks a text begins with are passed over together with the line breaks between them. -/
theorem dropWhile_spread (n : List Char) :
    (spread n ++ [';']).dropWhile isSpace = spread (n.dropWhile isSpace) ++ [';'] := by
  induction n with
  | nil => rfl
  | cons c rest ih =>
    by_cases hc : isSpace c = true
    · rw [spread, isAsciiDigit_of_isSpace hc, Bool.false_and, if_neg Bool.false_ne_true,
        List.cons_append, List.dropWhile_cons_of_pos hc, List.cons_append,
        List.dropWhile_cons_of_pos rfl, ih, List.dropWhile_cons_of_pos hc]
    · obtain ⟨tail, htail⟩ : ∃ tail, spread (c :: rest) = c :: tail := by
        rw [spread]
        split <;> exact ⟨_, rfl⟩
      rw [List.dropWhile_cons_of_neg hc, htail, List.cons_append, List.dropWhile_cons_of_neg hc]

/-- A line break is read as a blank, together with those that follow. -/
theorem exists_of_lexemes_newline {ls : List Lexeme}
    (h : lexemes ('\n' :: (spread n ++ [';'])) = .ok ls) :
    ∃ found, lexemes (spread (n.dropWhile isSpace) ++ [';']) = .ok found ∧
      ls = .atom .blank :: found := by
  obtain ⟨r, found, hr, hfound, rfl⟩ := exists_of_lexemes_cons h
  cases hr
  rw [dropWhile_spread] at hfound
  exact ⟨found, hfound, rfl⟩

/-! ### All of the text -/

/-- What the lexemes of a text with line breaks tell of the text without them. -/
structure Tells (n : List Char) (ls : List Lexeme) : Prop where
  noFunction : ∀ l ∈ ls, l.isFunction = false
  harmful : ∀ c ∈ n, isBrittle c = true → ∃ l ∈ ls, l.isHarmful = true
  short : ¬ HasLongRun n

theorem HasLongRun.dropWhile {p : Char → Bool} (hp : ∀ d, isAsciiDigit d = true → p d = false)
    (h : HasLongRun cs) : HasLongRun (cs.dropWhile p) := by
  obtain ⟨run, hrun, hdigits, hlong⟩ := h
  exact ⟨run, Text.isInfix_dropWhile (fun d hd => hp d (hdigits d hd)) hrun, hdigits, hlong⟩

theorem Tells.afterBlanks {ls : List Lexeme} (h : Tells (n.dropWhile isSpace) ls) :
    Tells n (.atom .blank :: ls) := by
  refine ⟨List.forall_mem_cons.mpr ⟨rfl, h.noFunction⟩, fun c hc hbrittle => ?_, fun hlong => ?_⟩
  · have hspace : isSpace c = false := by
      rcases isBrittle_iff.mp hbrittle with rfl | rfl | rfl | rfl <;> rfl
    obtain ⟨l, hl, hharm⟩ := h.harmful c (Text.mem_dropWhile hspace hc) hbrittle
    exact ⟨l, List.mem_cons_of_mem _ hl, hharm⟩
  · refine h.short (hlong.dropWhile fun d hd => ?_)
    rw [Bool.eq_false_iff]
    intro hspace
    rw [isAsciiDigit_of_isSpace hspace] at hd
    cases hd

theorem Tells.cons {l : Lexeme} {ls : List Lexeme} (hc : isAsciiDigit c = false)
    (hfun : l.isFunction = false) (hharm : isBrittle c = true → l.isHarmful = true)
    (h : Tells rest ls) : Tells (c :: rest) (l :: ls) := by
  refine ⟨List.forall_mem_cons.mpr ⟨hfun, h.noFunction⟩, fun d hd hbrittle => ?_, fun hlong => ?_⟩
  · rcases List.mem_cons.mp hd with rfl | hd
    · exact ⟨l, List.mem_cons_self, hharm hbrittle⟩
    · obtain ⟨k, hk, hkharm⟩ := h.harmful d hd hbrittle
      exact ⟨k, List.mem_cons_of_mem _ hk, hkharm⟩
  · have hdropped := hlong.dropWhile (p := fun d => !isAsciiDigit d) (by simp)
    rw [List.dropWhile_cons_of_pos (by simpa using hc)] at hdropped
    exact h.short (hdropped.mono (List.dropWhile_suffix _).isInfix)

/-- Digits in a row stand together before the first other character, or after it. -/
theorem isInfix_takeWhile_or {p : Char → Bool} {u : List Char} (hu : ∀ d ∈ u, p d = true)
    (h : u <:+: cs) : u <:+: cs.takeWhile p ∨ u <:+: cs.dropWhile p := by
  induction cs with
  | nil => exact .inl h
  | cons c rest ih =>
    by_cases hc : p c = true
    · rw [List.takeWhile_cons_of_pos hc, List.dropWhile_cons_of_pos hc]
      rcases List.infix_cons_iff.mp h with ⟨after, hafter⟩ | hwithin
      · have htake : (u ++ after).takeWhile p = u ++ after.takeWhile p :=
          List.takeWhile_append_of_pos hu
        rw [hafter, List.takeWhile_cons_of_pos hc] at htake
        rw [htake]
        exact .inl (List.prefix_append u _).isInfix
      · exact (ih hwithin).imp_left fun htake => htake.trans (List.suffix_cons c _).isInfix
    · rw [List.dropWhile_cons_of_neg hc]
      exact .inr h

theorem Tells.digits {x : Number} {ls : List Lexeme}
    (hshort : (n.takeWhile isAsciiDigit).length ≤ Decimal.integerDigitLimit)
    (h : Tells (n.dropWhile isAsciiDigit) ls) : Tells n (.atom (.number x) :: ls) := by
  refine ⟨List.forall_mem_cons.mpr ⟨rfl, h.noFunction⟩, fun c hc hbrittle => ?_, ?_⟩
  · have hdigit : isAsciiDigit c = false := by
      rcases isBrittle_iff.mp hbrittle with rfl | rfl | rfl | rfl <;> rfl
    obtain ⟨l, hl, hharm⟩ := h.harmful c (Text.mem_dropWhile hdigit hc) hbrittle
    exact ⟨l, List.mem_cons_of_mem _ hl, hharm⟩
  · rintro ⟨run, hrun, hdigits, hlong⟩
    rcases isInfix_takeWhile_or hdigits hrun with htake | hdrop
    · have hlength := htake.length_le
      omega
    · exact h.short ⟨run, hdrop, hdigits, hlong⟩

theorem not_hasLongRun_nil : ¬ HasLongRun [] := by
  rintro ⟨run, hrun, -, hlong⟩
  have hlength := hrun.length_le
  rw [List.length_nil] at hlength
  omega

/-- **What is read of a text with line breaks**, if anything is: no function, something harmful if
the text without them has a brittle character, and no long run of digits. -/
theorem lexemes_spread (n : List Char) {ls : List Lexeme} (hescape : ∀ c ∈ n, c ≠ '\\')
    (h : lexemes (spread n ++ [';']) = .ok ls) : Tells n ls := by
  match n with
  | [] =>
    obtain ⟨r, found, hr, hfound, rfl⟩ := exists_of_lexemes_cons h
    rw [step_of_isMark (by decide)] at hr
    cases hr
    rw [lexemes_nil] at hfound
    cases hfound
    exact ⟨by decide, by simp, not_hasLongRun_nil⟩
  | c :: rest =>
    obtain ⟨hc, hrest⟩ := List.forall_mem_cons.mp hescape
    by_cases hdigit : isAsciiDigit c = true
    · rw [spread_digits hdigit, List.append_assoc, List.takeWhile_cons_of_pos hdigit,
        List.dropWhile_cons_of_pos hdigit] at h
      obtain ⟨r, found, hr, hfound, rfl⟩ := exists_of_lexemes_cons h
      have hdigits : ∀ d ∈ c :: rest.takeWhile isAsciiDigit, isAsciiDigit d = true :=
        List.forall_mem_cons.mpr ⟨hdigit, fun d hd => List.all_eq_true.mp List.all_takeWhile d hd⟩
      obtain ⟨hshort, x, rfl⟩ := step_digits hdigits _ hr
      obtain ⟨more, hmore, rfl⟩ := exists_of_lexemes_newline hfound
      have hsub : (rest.dropWhile isAsciiDigit).dropWhile isSpace <:+ rest :=
        (List.dropWhile_suffix _).trans (List.dropWhile_suffix _)
      have htells := lexemes_spread _ (fun d hd => hrest d (hsub.subset hd)) hmore
      refine Tells.digits ?_ ?_
      · rwa [List.takeWhile_cons_of_pos hdigit]
      · rw [List.dropWhile_cons_of_pos hdigit]
        exact htells.afterBlanks
    · rw [Bool.not_eq_true] at hdigit
      rw [spread, hdigit, Bool.false_and, if_neg Bool.false_ne_true, List.cons_append,
        List.cons_append] at h
      have hsub : rest.dropWhile isSpace <:+ rest := List.dropWhile_suffix _
      by_cases hspace : isSpace c = true
      · obtain ⟨r, found, hr, hfound, rfl⟩ := exists_of_lexemes_cons h
        rw [step, if_pos hspace] at hr
        cases hr
        rw [List.dropWhile_cons_of_pos rfl, dropWhile_spread] at hfound
        have htells := lexemes_spread _ (fun d hd => hrest d (hsub.subset hd)) hfound
        refine Tells.afterBlanks ?_
        rwa [List.dropWhile_cons_of_pos hspace]
      · rw [Bool.not_eq_true] at hspace
        obtain ⟨l, hl, hfun, hharm⟩ := step_before_newline hspace hdigit hc (spread rest ++ [';'])
        obtain ⟨r, found, hr, hfound, rfl⟩ := exists_of_lexemes_cons h
        rw [hl] at hr
        cases hr
        obtain ⟨more, hmore, rfl⟩ := exists_of_lexemes_newline hfound
        have htells := lexemes_spread _ (fun d hd => hrest d (hsub.subset hd)) hmore
        exact Tells.cons hdigit hfun hharm htells.afterBlanks
termination_by n.length
decreasing_by all_goals exact length_lt_of_suffix hsub

end

end ThemeSheet.Css
