import ThemeSheet.Proofs.Css.Spread
import ThemeSheet.Proofs.Json.Content
import ThemeSheet.Proofs.Results
import ThemeSheet.Proofs.Text.Occurrences
import ThemeSheet.Proofs.Tree.Decidable
import ThemeSheet.Style.Declaration

/-!
# What is judged and what is written

A value is judged by its spelling without line breaks and tabs and without the blanks around it, but
it is written with all of them. So the verdict is on a text that many values share, and it need not
be true of each of them: a string that is judged whole is broken by a line break inside it, and what
follows may then end the declaration and the rule.

It is true of what is written as it is judged. And it is true of all of them if the text is steady:
it has no quotes, no opening parentheses, no equals signs and no long run of digits. Then the lexer
finds nothing but calm atoms, wherever the line breaks are. If the text is not steady, line breaks
can be put into it so that it is judged safe still, but is not safe as it is written.

## Main definitions

* `judged`, the text by which a value is judged;
* `isSafeAsWritten`, the condition that values are judged by, on what is written;
* `IsSteady`, of texts of which the verdict is true however they are written.

## Main results

* `safe_as_written_iff_steady`;
* `isSafeAsWritten_of_json`: values that stand in JSON.
-/

namespace ThemeSheet.Css

open Text (isAsciiDigit isBlank)

/-- The text by which a value is judged. -/
def judged (v : Value) : Except Refusal (List Char) := do
  let text ← v.spelling
  return stripped text.toList

/-- Whether a value is safe as it is written in a declaration of a property: what is written is read
to the semicolon after it, and all before that is safe. -/
def isSafeAsWritten (property : String) (v : Value) : Except Refusal Bool := do
  let text ← cssText v
  isSafeTerminated property text.toList

/-- Nothing in a text changes its meaning before a line break. -/
structure IsSteady (n : List Char) : Prop where
  unbroken : ∀ c ∈ n, isBrittle c = false
  short : ¬ HasLongRun n

/-- A value is in range, if it is a number. -/
def InRange : Value → Prop
  | .float x => x.InRange
  | _ => True

section

variable {property : String} {v w : Value} {n cs : List Char}

/-! ### The verdict -/

/-- What a text that is not refused outright does not have. -/
theorem admitted_of_not_refused (h : refusedOutright n = false) :
    ';' ∉ n ∧ '\\' ∉ n ∧ ¬ HasComment n := by
  simp only [refusedOutright, Bool.or_eq_false_iff] at h
  obtain ⟨⟨⟨-, hsemicolon⟩, hescape⟩, hcomment⟩ := h
  refine ⟨by simpa using hsemicolon, by simpa using hescape, fun hin => ?_⟩
  rw [Text.occursIn_iff.mpr hin] at hcomment
  cases hcomment

/-- A value that is judged safe has a spelling, and its text is not refused and is safe. -/
theorem exists_judged (h : isSafeDeclaration property v = .ok true) :
    ∃ n, judged v = .ok n ∧ stripped n = n ∧ refusedOutright n = false ∧
      isSafeTerminated property n = .ok true := by
  rw [isSafeDeclaration] at h
  split at h
  next =>
    obtain ⟨text, htext, h⟩ := Result.exists_of_bind h
    refine ⟨stripped text.toList, by rw [judged, htext]; rfl, stripped_stripped _, ?_⟩
    rw [isSafeText] at h
    split at h
    · cases h
    next hrefused => exact ⟨Bool.eq_false_iff.mpr hrefused, h⟩
  next => cases h

/-- A safe text has been read. -/
theorem exists_lexemes_of_safe (h : isSafeTerminated property cs = .ok true) :
    ∃ ls, lexemes (normalize (cs ++ [';'])) = .ok ls := by
  cases hls : lexemes (normalize (cs ++ [';'])) with
  | ok ls => exact ⟨ls, rfl⟩
  | error e =>
    rw [isSafeTerminated, tokens, hls] at h
    cases h

/-! ### Steady texts -/

/-- A safe text without quotes, parentheses, escapes and comments has no marks. -/
theorem unmarked_of_safe (hplain : ∀ c ∈ n, isPlain c = true) (hcomment : ¬ HasComment n)
    (hsemicolon : ';' ∉ n) (hsafe : isSafeTerminated property n = .ok true) :
    ∀ c ∈ n, isMark c = false := by
  intro c hc
  rw [Bool.eq_false_iff]
  intro hmark
  obtain ⟨ls, hls⟩ := exists_lexemes_of_safe hsafe
  have hread := hls
  rw [normalize_append_semicolon] at hread
  have hplain' : ∀ d ∈ normalize n ++ [';'], isPlain d = true := by
    intro d hd
    rcases List.mem_append.mp hd with hd | hd
    · rcases mem_of_mem_normalize hd with hd | rfl | rfl
      · exact hplain d hd
      · decide
      · decide
    · rw [List.mem_singleton.mp hd]
      decide
  have hcomment' : ¬ HasComment (normalize n ++ [';']) := fun h =>
    hcomment h.of_append_semicolon.of_normalize
  obtain ⟨hfun, hmarks⟩ := lexemes_plain _ hplain' hcomment' hread
  have hne : c ≠ '\r' ∧ c ≠ '\x0c' ∧ c ≠ '\x00' := by
    refine ⟨?_, ?_, ?_⟩ <;>
    · rintro rfl
      cases hmark
  have hmem := hmarks c (List.mem_append_left _ (mem_normalize hc hne)) hmark
  refine isSafeTerminated_ne_of_harmful hls hfun ⟨_, hmem, ?_⟩ hsafe
  rcases isMark_iff.mp hmark with rfl | rfl | rfl | rfl | rfl | rfl | rfl
  · exact absurd hc hsemicolon
  all_goals rfl

theorem plain_of_isBlank {c : Char} (h : isBlank c = true) :
    isPlain c = true ∧ isMark c = false ∧ c ≠ '=' :=
  ⟨isPlain_of h (by decide), isMark_eq_false_of h (by decide), by rintro rfl; cases h⟩

/-- The digits of an integer and its sign. -/
theorem plain_of_isDigit {c : Char} (h : c = '-' ∨ c.isDigit = true) :
    isPlain c = true ∧ isMark c = false ∧ c ≠ '=' ∧ c ≠ '/' := by
  rcases h with rfl | h
  · decide
  · refine ⟨isPlain_of h (by decide), isMark_eq_false_of h (by decide), ?_, ?_⟩ <;>
    · rintro rfl
      cases h

theorem isBlank_of_isAsciiDigit {c : Char} (h : isAsciiDigit c = true) : isBlank c = false := by
  have hrange : 48 ≤ c.toNat ∧ c.toNat ≤ 57 := by
    simpa [isAsciiDigit, Char.le_def, UInt32.le_iff_toNat_le] using h
  simp only [isBlank, Bool.or_eq_false_iff, Bool.and_eq_false_iff, decide_eq_false_iff_not,
    beq_eq_false_iff_ne]
  omega

/-- **What is stripped to a steady and safe text is calm**, wherever its line breaks are. -/
theorem isCalm_of_stripped (hsteady : IsSteady (stripped cs))
    (hrefused : refusedOutright (stripped cs) = false)
    (hsafe : isSafeTerminated property (stripped cs) = .ok true) : IsCalm cs := by
  obtain ⟨hsemicolon, hescape, hcomment⟩ := admitted_of_not_refused hrefused
  have hplain : ∀ c ∈ stripped cs, isPlain c = true ∧ c ≠ '=' := by
    intro c hc
    have hbrittle := hsteady.unbroken c hc
    have hne : c ≠ '\\' := by
      rintro rfl
      exact hescape hc
    simp_all [isPlain, isBrittle]
  have hunmarked := unmarked_of_safe (fun c hc => (hplain c hc).1) hcomment hsemicolon hsafe
  have hchars : ∀ c ∈ cs, isPlain c = true ∧ isMark c = false ∧ c ≠ '=' := by
    intro c hc
    by_cases hblank : isBlank c = true
    · exact plain_of_isBlank hblank
    · have hmem := mem_stripped (by simpa using hblank) hc
      exact ⟨(hplain c hmem).1, hunmarked c hmem, (hplain c hmem).2⟩
  refine ⟨fun c hc => (hchars c hc).1, fun c hc => (hchars c hc).2, fun h => ?_, ?_⟩
  · exact hcomment h.stripped
  · rintro ⟨run, hrun, hdigits, hlong⟩
    have hkept := isInfix_stripped (fun d hd => isBlank_of_isAsciiDigit (hdigits d hd)) hrun
    exact hsteady.short ⟨run, hkept, hdigits, hlong⟩

/-- The text of an integer in range is calm. -/
theorem isCalm_toString_int {k : Int} (h : k.natAbs < 2 ^ Binary64.maxBits) :
    IsCalm (toString k).toList := by
  have hchars : ∀ c ∈ (toString k).toList,
      isPlain c = true ∧ isMark c = false ∧ c ≠ '=' ∧ c ≠ '/' :=
    fun c hc => plain_of_isDigit (Decimal.mem_toString_int hc)
  refine ⟨fun c hc => (hchars c hc).1, fun c hc => ⟨(hchars c hc).2.1, (hchars c hc).2.2.1⟩,
    fun hcomment => ?_, ?_⟩
  · have hslash := hcomment.subset (List.mem_cons_self : '/' ∈ ['/', '*'])
    exact (hchars _ hslash).2.2.2 rfl
  · rintro ⟨run, hrun, -, hlong⟩
    have hlength := Decimal.length_toString_int_le (by decide) (Decimal.lt_ten_pow h)
    have hle := hrun.length_le
    rw [Binary64.maxBits] at hlength
    rw [Decimal.integerDigitLimit] at hlong
    omega

/-! ### What is written -/

/-- The integer of a number in range is written. -/
theorem integerSpelling_truncate {x : Binary64} (h : x.InRange) :
    integerSpelling x.truncate = .ok (toString x.truncate) := by
  have hbits : Binary64.maxBits ≤ Decimal.integerDigitLimit := by decide
  have htext := Decimal.intText?_of_lt (Binary64.natAbs_truncate_lt h) hbits
  unfold integerSpelling
  rw [htext]

/-- What is written of a value is calm, or is what it is judged by once it is stripped. -/
theorem exists_cssText (hw : InRange w) (hn : judged w = .ok n) :
    ∃ text, cssText w = .ok text ∧ (IsCalm text.toList ∨ stripped text.toList = n) := by
  obtain ⟨text, htext, hn⟩ := Result.exists_of_bind hn
  have hstripped : stripped text.toList = n := Except.ok.inj hn
  unfold cssText
  split
  next x =>
    split
    · exact ⟨_, integerSpelling_truncate hw,
        .inl (isCalm_toString_int (Binary64.natAbs_truncate_lt hw))⟩
    · cases htext
      exact ⟨_, rfl, .inr hstripped⟩
  next => exact ⟨text, htext, .inr hstripped⟩

/-! ### Line breaks put in -/

theorem settle_eq_escape {c : Char} (h : settle c = '\\') : c = '\\' := by
  rw [settle] at h
  split at h
  · cases h
  split at h
  · cases h
  exact h

theorem settle_of_isBrittle {c : Char} (h : isBrittle c = true) : settle c = c := by
  rcases isBrittle_iff.mp h with rfl | rfl | rfl | rfl <;> rfl

theorem settle_of_isAsciiDigit {c : Char} (h : isAsciiDigit c = true) : settle c = c := by
  rw [settle]
  split
  next heq => rw [heq] at h; cases h
  split
  next heq => rw [heq] at h; cases h
  rfl

theorem HasLongRun.map_settle (h : HasLongRun n) : HasLongRun (n.map settle) := by
  obtain ⟨run, hrun, hdigits, hlong⟩ := h
  have hmap : run.map settle = run :=
    (List.map_congr_left fun d hd => settle_of_isAsciiDigit (hdigits d hd)).trans (List.map_id run)
  refine ⟨run, ?_, hdigits, hlong⟩
  rw [← hmap]
  exact hrun.map settle

/-- **What is safe with line breaks everywhere is steady.** -/
theorem isSteady_of_spread (hn : stripped n = n) (hescape : '\\' ∉ n)
    (hsafe : isSafeTerminated property (spread n) = .ok true) : IsSteady n := by
  have hread : normalize (spread n ++ [';']) = spread (n.map settle) ++ [';'] := by
    rw [normalize_append_semicolon, normalize_spread]
    intro c hc
    rw [← hn] at hc
    exact (kept_of_mem_stripped hc).2.1
  obtain ⟨ls, hls⟩ := exists_lexemes_of_safe hsafe
  have htells : Tells (n.map settle) ls := by
    refine lexemes_spread _ (fun c hc heq => ?_) (hread ▸ hls)
    obtain ⟨d, hd, rfl⟩ := List.mem_map.mp hc
    rw [settle_eq_escape heq] at hd
    exact hescape hd
  refine ⟨fun c hc => ?_, fun hlong => htells.short hlong.map_settle⟩
  rw [Bool.eq_false_iff]
  intro hbrittle
  have hmem := List.mem_map_of_mem (f := settle) hc
  rw [settle_of_isBrittle hbrittle] at hmem
  exact isSafeTerminated_ne_of_harmful hls htells.noFunction (htells.harmful c hmem hbrittle) hsafe

/-! ### The two agree -/

/-- What is judged by a steady text that is admitted is safe as it is written. -/
theorem isSafeAsWritten_of_isSteady (hsteady : IsSteady n) (hrefused : refusedOutright n = false)
    (hterminated : isSafeTerminated property n = .ok true) (hw : InRange w)
    (hjudged : judged w = .ok n) : isSafeAsWritten property w = .ok true := by
  obtain ⟨text, htext, hcalm | hstripped⟩ := exists_cssText hw hjudged
  · rw [isSafeAsWritten, htext]
    exact isSafeTerminated_of_isCalm hcalm property
  · have hcalm : IsCalm text.toList := by
      rw [← hstripped] at hsteady hrefused hterminated
      exact isCalm_of_stripped hsteady hrefused hterminated
    rw [isSafeAsWritten, htext]
    exact isSafeTerminated_of_isCalm hcalm property

/-- **Of a tree as JSON has it** every value that is judged safe by a steady text is safe as it is
written, for its numbers are in range. -/
theorem isSafeAsWritten_of_json {tree : Value} {path : Path} (htree : tree.HasContent .json)
    (hv : tree.at? path = some v) (hsafe : isSafeDeclaration property v = .ok true)
    (hn : judged v = .ok n) (hsteady : IsSteady n) : isSafeAsWritten property v = .ok true := by
  have hrange : InRange v := by
    cases v with
    | float x => exact htree.inRange_of_at? hv
    | _ => exact True.intro
  obtain ⟨m, hm, -, hrefused, hterminated⟩ := exists_judged hsafe
  cases hm.symm.trans hn
  exact isSafeAsWritten_of_isSteady hsteady hrefused hterminated hrange hn

/-- **The verdict is true of what is written as it is judged**, and it is true of all values that
are judged by a text exactly if the text is steady. -/
theorem safe_as_written_iff_steady (hsafe : isSafeDeclaration property v = .ok true)
    (hn : judged v = .ok n) :
    (∀ w, cssText w = .ok (String.ofList n) → isSafeAsWritten property w = .ok true) ∧
      ((∀ w, InRange w → judged w = .ok n → isSafeAsWritten property w = .ok true) ↔
        IsSteady n) := by
  obtain ⟨m, hm, hstripped, hrefused, hterminated⟩ := exists_judged hsafe
  have heq : m = n := by
    rw [hm] at hn
    exact Except.ok.inj hn
  subst heq
  refine ⟨fun w hw => ?_, ?_, ?_⟩
  · rw [isSafeAsWritten, hw]
    show isSafeTerminated property (String.ofList m).toList = .ok true
    rw [String.toList_ofList, hterminated]
  · intro hall
    have hw : judged (.text (String.ofList (spread m))) = .ok m := by
      rw [judged, Value.spelling]
      show Except.ok (stripped (String.ofList (spread m)).toList) = _
      rw [String.toList_ofList, stripped_spread hstripped]
    have hspread := hall (.text (String.ofList (spread m))) trivial hw
    change isSafeTerminated property (String.ofList (spread m)).toList = .ok true at hspread
    rw [String.toList_ofList] at hspread
    exact isSteady_of_spread hstripped (admitted_of_not_refused hrefused).2.1 hspread
  · exact fun hsteady _ hw hjudged =>
      isSafeAsWritten_of_isSteady hsteady hrefused hterminated hw hjudged

end

/-- A length is judged by a steady text, so it is safe with the blanks around it. -/
theorem safe_as_written_iff_steady_length :
    isSafeDeclaration "width" (.text " 2em\n") = .ok true ∧
      judged (.text " 2em\n") = .ok "2em".toList ∧
      (∀ w, cssText w = .ok "2em" → isSafeAsWritten "width" w = .ok true) ∧
      ((∀ w, InRange w → judged w = .ok "2em".toList → isSafeAsWritten "width" w = .ok true) ↔
        IsSteady "2em".toList) := by
  have hsafe : isSafeDeclaration "width" (.text " 2em\n") = .ok true := by decide +kernel
  have hn : judged (.text " 2em\n") = .ok "2em".toList := by decide +kernel
  exact ⟨hsafe, hn, safe_as_written_iff_steady hsafe hn⟩

/-- A string with a line break and a closing bracket is judged safe, but it is broken by the line
break, and the bracket ends the rule. -/
theorem not_safe_as_written_string :
    isSafeDeclaration "color" (.text "\"\n\x7d\"") = .ok true ∧
      isSafeAsWritten "color" (.text "\"\n\x7d\"") = .ok false := by
  constructor <;> decide +kernel

end ThemeSheet.Css
