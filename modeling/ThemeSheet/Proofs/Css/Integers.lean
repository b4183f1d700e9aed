import ThemeSheet.Css.Color
import ThemeSheet.Proofs.Css.Runs
import ThemeSheet.Proofs.Number.Range

/-!
# Integers that are read

An integer that the lexer reads has the digits of a run, so it is smaller than the power of ten for
the length of the longest run. It stays in the tokens, wherever they are nested, and so in the
arguments of a color function. An integer of 310 digits can still be divided as a channel of a color
is: so a color is refused only if there is a longer run than that, and then its text may be refused
already for the run being longer than integers may be.

## Main definitions

* `Atom.HasIntegers`, of atoms whose integers have a property; `Token.AllAtoms`, for what is nested;
* `channelDigitLimit`.

## Main results

* `Numeral.value_lt`: digits and their value;
* `meets_tokens`: the integers that are read;
* `failsOnly_parseColor`.
-/

namespace ThemeSheet

open Result (FailsOnly Meets failsOnly_ok meets_error)
open Text (isAsciiDigit)

/-! ### Digits -/

theorem Numeral.value_lt {ds : List Char} (h : ∀ d ∈ ds, isAsciiDigit d = true) :
    Numeral.value ds < 10 ^ ds.length := by
  have hfold : ∀ (ds : List Char) (n : Nat), (∀ d ∈ ds, isAsciiDigit d = true) →
      ds.foldl (fun n d => n * 10 + (d.toNat - 48)) n < (n + 1) * 10 ^ ds.length := by
    intro ds
    induction ds with
    | nil =>
      intro n _
      simp
    | cons d ds ih =>
      intro n h
      obtain ⟨hd, hds⟩ := List.forall_mem_cons.mp h
      have hrange : 48 ≤ d.toNat ∧ d.toNat ≤ 57 := by
        simpa [isAsciiDigit, Char.le_def, UInt32.le_iff_toNat_le] using hd
      calc ds.foldl (fun n d => n * 10 + (d.toNat - 48)) (n * 10 + (d.toNat - 48))
          < (n * 10 + (d.toNat - 48) + 1) * 10 ^ ds.length := ih _ hds
        _ ≤ (n + 1) * 10 * 10 ^ ds.length := Nat.mul_le_mul_right _ (by omega)
        _ = (n + 1) * 10 ^ (ds.length + 1) := by
          rw [Nat.mul_assoc, Nat.pow_succ, Nat.mul_comm 10]
  have hvalue := hfold ds 0 h
  rwa [Nat.zero_add, Nat.one_mul] at hvalue

namespace Css

variable {p : Int → Prop} {allowed : Refusal → Prop} {c : Char} {cs rest : List Char}

/-! ### Lexemes -/

/-- The integer of an atom has a property, if it has one and is not measured. -/
def Atom.HasIntegers (p : Int → Prop) : Atom → Prop
  | .number n => ∀ i, n.integer = some i → p i
  | _ => True

/-- The integer of a lexeme has a property. -/
def Lexeme.HasIntegers (p : Int → Prop) : Lexeme → Prop
  | .atom a => a.HasIntegers p
  | _ => True

/-- The integer of a numeral has no more digits than the numeral. -/
theorem natAbs_lt_of_numeral? {n : Number} {whole : List Char} {i : Int}
    (h : numeral? cs = some (n, whole, rest)) (hi : n.integer = some i) :
    i.natAbs < 10 ^ whole.length := by
  obtain ⟨-, -, hdigits⟩ := passesOver_numeral? h
  unfold numeral? at h
  dsimp only at h
  split at h
  · cases h
  · cases h
    dsimp only at hi
    split at hi
    · cases hi
      rw [Binary64.natAbs_signed]
      exact Numeral.value_lt hdigits
    · cases hi

theorem hasIntegers_measured {n : Number} (h : ∀ i, n.integer = some i → p i) (rest : List Char) :
    (measured n rest).1.HasIntegers p := by
  unfold measured
  split
  · exact True.intro
  · split
    · exact True.intro
    · exact h

theorem hasIntegers_reading (make : String → Atom) (hmake : ∀ s, (make s).HasIntegers p)
    (r : Reading) : ∀ l ∈ r.lexemes make, l.HasIntegers p := by
  intro l hl
  unfold Reading.lexemes at hl
  rcases List.mem_append.mp hl with hl | hl
  · split at hl
    · rw [List.mem_singleton.mp hl]
      exact hmake _
    · cases hl
  · split at hl
    · rw [List.mem_singleton.mp hl]
      exact True.intro
    · cases hl

theorem hasIntegers_identLexemes (cs : List Char) :
    ∀ l ∈ (identLexemes cs).1, l.HasIntegers p := by
  unfold identLexemes
  dsimp only
  split
  · split
    · exact hasIntegers_reading .url (fun _ => True.intro) _
    · exact List.forall_mem_singleton.mpr True.intro
  · exact List.forall_mem_singleton.mpr True.intro

theorem hasIntegers_signLexemes (c : Char) (rest : List Char) :
    ∀ l ∈ (signLexemes c rest).1, l.HasIntegers p := by
  unfold signLexemes
  split
  · split <;> exact List.forall_mem_singleton.mpr True.intro
  split
  · split
    · split <;> exact List.forall_mem_singleton.mpr True.intro
    · exact List.forall_mem_singleton.mpr True.intro
  split
  · exact hasIntegers_reading .string (fun _ => True.intro) _
  split
  · exact List.forall_mem_singleton.mpr True.intro
  · exact List.forall_mem_singleton.mpr True.intro
  · split <;> exact List.forall_mem_singleton.mpr True.intro

/-- **The integers of a step** are no longer than the longest run. -/
theorem meets_step (most : Nat)
    (hlong : HasLongRun (c :: rest) → ∀ digits, allowed (.numeralTooLong digits))
    (hp : ∀ i : Int, i.natAbs < 10 ^ most ∨ HasRun most (c :: rest) → p i) :
    Meets allowed (fun r => ∀ l ∈ r.1, l.HasIntegers p) (step c rest) := by
  refine ⟨fun e he => ?_, fun r hr => ?_⟩
  · obtain ⟨hrun, digits, rfl⟩ := hasLongRun_of_step he
    exact hlong hrun digits
  have hstep := stepCase c rest
  rw [hr] at hstep
  cases hstep with
  | ident => exact hasIntegers_identLexemes _
  | @number n whole tail hn =>
    refine List.forall_mem_singleton.mpr (hasIntegers_measured (fun i hi => hp i ?_) tail)
    obtain ⟨-, hwithin, hdigits⟩ := passesOver_numeral? hn
    have hlt := natAbs_lt_of_numeral? hn hi
    by_cases hshort : whole.length ≤ most
    · exact .inl (Nat.lt_of_lt_of_le hlt (Nat.pow_le_pow_right (by decide) hshort))
    · exact .inr ⟨whole, hwithin, hdigits, by omega⟩
  | sign => exact hasIntegers_signLexemes c rest
  | _ => exact List.forall_mem_singleton.mpr True.intro

/-! ### Tokens -/

/-- All atoms of a token have a property, however deep they are nested. -/
inductive Token.AllAtoms (q : Atom → Prop) : Token → Prop
  | atom {a : Atom} (ha : q a) : AllAtoms q (.atom a)
  | block {opening : Opening} {content : List Token} (hcontent : ∀ t ∈ content, AllAtoms q t) :
    AllAtoms q (.block opening content)

section Nesting

variable {q : Atom → Prop} {stack : List OpenBlock} {done : List Token}

theorem allAtoms_endBlocks (hstack : ∀ b ∈ stack, ∀ t ∈ b.before, t.AllAtoms q)
    (hdone : ∀ t ∈ done, t.AllAtoms q) : ∀ t ∈ endBlocks stack done, t.AllAtoms q := by
  induction stack generalizing done with
  | nil => exact hdone
  | cons b stack ih =>
    obtain ⟨hb, hstack⟩ := List.forall_mem_cons.mp hstack
    rw [endBlocks]
    exact ih hstack (List.forall_mem_cons.mpr
      ⟨.block fun t ht => hdone t (List.mem_reverse.mp ht), hb⟩)

theorem allAtoms_nestUnder {ls : List Lexeme} (hfault : q .fault)
    (hstack : ∀ b ∈ stack, ∀ t ∈ b.before, t.AllAtoms q) (hdone : ∀ t ∈ done, t.AllAtoms q)
    (hls : ∀ l ∈ ls, ∀ a, l = .atom a → q a) : ∀ t ∈ nestUnder stack done ls, t.AllAtoms q := by
  induction ls generalizing stack done with
  | nil => exact allAtoms_endBlocks hstack hdone
  | cons l ls ih =>
    obtain ⟨hl, hrest⟩ := List.forall_mem_cons.mp hls
    have hadd : ∀ {a : Atom}, q a → ∀ t ∈ .atom a :: done, Token.AllAtoms q t := fun ha =>
      List.forall_mem_cons.mpr ⟨.atom ha, hdone⟩
    cases l with
    | atom a => exact ih hstack (hadd (hl a rfl)) hrest
    | opening o =>
      exact ih (List.forall_mem_cons.mpr ⟨hdone, hstack⟩) (List.forall_mem_nil _) hrest
    | closing kind =>
      cases stack with
      | nil => exact ih hstack (hadd hfault) hrest
      | cons b below =>
        obtain ⟨hb, hbelow⟩ := List.forall_mem_cons.mp hstack
        rw [nestUnder]
        split
        · have hblock : ∀ t ∈ done.reverse, t.AllAtoms q := fun t ht =>
            hdone t (List.mem_reverse.mp ht)
          exact ih hbelow (List.forall_mem_cons.mpr ⟨.block hblock, hb⟩) hrest
        · exact ih hstack (hadd hfault) hrest

theorem allAtoms_nest {ls : List Lexeme} (hfault : q .fault)
    (hls : ∀ l ∈ ls, ∀ a, l = .atom a → q a) : ∀ t ∈ nest ls, t.AllAtoms q := fun t ht =>
  allAtoms_nestUnder hfault (List.forall_mem_nil _) (List.forall_mem_nil _) hls t
    (List.mem_reverse.mp ht)

end Nesting

/-- **The integers of a text** are no longer than its longest run. -/
theorem meets_tokens (most : Nat)
    (hlong : HasLongRun cs → ∀ digits, allowed (.numeralTooLong digits))
    (hp : ∀ i : Int, i.natAbs < 10 ^ most ∨ HasRun most cs → p i) :
    Meets allowed (fun ts => ∀ t ∈ ts, t.AllAtoms (Atom.HasIntegers p)) (tokens cs) := by
  have hlexemes : Meets allowed (fun ls => ∀ l ∈ ls, l.HasIntegers p)
      (lexemes (normalize cs)) := by
    refine meets_lexemes _ fun c rest hrest => meets_step most (fun hrun => ?_) ?_
    · exact hlong (HasRun.of_normalize (hrun.mono hrest.isInfix))
    · exact fun i hi => hp i (hi.imp_right fun hrun =>
        HasRun.of_normalize (hrun.mono hrest.isInfix (Nat.le_refl _)))
  refine hlexemes.map fun ls hls => allAtoms_nest True.intro fun l hl a ha => ?_
  subst ha
  exact hls _ hl

/-! ### Colors -/

/-- The most digits with which any integer has a quotient as a channel. -/
def channelDigitLimit : Nat := 310

theorem failsOnly_quotient {n : Int} (h : n.natAbs < 10 ^ channelDigitLimit) :
    FailsOnly allowed (quotient n 255) := by
  have hpow : 10 ^ channelDigitLimit ≤ 255 * 2 ^ 1023 := by decide +kernel
  have hfinite := fun s => Binary64.ofRatio_ne_infinite (Nat.lt_of_lt_of_le h hpow)
    (Nat.le_refl 1023) (decide (n < 0)) s
  unfold quotient
  split
  next s hs => exact absurd hs (hfinite s)
  next => exact failsOnly_ok _

/-- The arguments of a function are atoms among what is inside it. -/
theorem mem_of_mem_commaSeparated? {content : List Token} {arguments : List Atom}
    (h : commaSeparated? content = some arguments) : ∀ a ∈ arguments, .atom a ∈ content := by
  have hsplit : ∀ (ts : List Token) (found : List Atom), commaSeparated?.split ts = some found →
      ∀ a ∈ found, .atom a ∈ ts := by
    intro ts
    fun_induction commaSeparated?.split ts with
    | case1 a =>
      intro found hfound
      cases hfound
      simp
    | case2 a rest ih =>
      intro found hfound
      obtain ⟨others, hothers, rfl⟩ := Option.map_eq_some_iff.mp hfound
      refine List.forall_mem_cons.mpr ⟨List.mem_cons_self, fun b hb => ?_⟩
      exact List.mem_cons_of_mem _ (List.mem_cons_of_mem _ (ih others hothers b hb))
    | case3 =>
      intro found hfound
      cases hfound
  unfold commaSeparated? at h
  dsimp only at h
  split at h
  · cases h
    exact List.forall_mem_nil _
  · exact fun a ha => (List.mem_filter.mp (hsplit _ _ h a ha)).1

theorem failsOnly_rgb {arguments : List Atom}
    (h : ∀ a ∈ arguments, a.HasIntegers fun i => FailsOnly allowed (quotient i 255))
    (alpha : Binary64) : FailsOnly allowed (rgb arguments alpha) := by
  unfold rgb
  split
  next r g b =>
    split
    next red green blue hred hgreen hblue =>
      refine FailsOnly.bind (h (.number r) (by simp) red hred) fun _ => ?_
      refine FailsOnly.bind (h (.number g) (by simp) green hgreen) fun _ => ?_
      exact FailsOnly.bind (h (.number b) (by simp) blue hblue) fun _ => failsOnly_ok _
    next => exact failsOnly_ok none
  next => exact failsOnly_ok _
  next => exact failsOnly_ok none

theorem failsOnly_functionColor {content : List Token}
    (h : ∀ a, .atom a ∈ content → a.HasIntegers fun i => FailsOnly allowed (quotient i 255))
    (name : String) : FailsOnly allowed (functionColor name content) := by
  unfold functionColor
  split
  · exact failsOnly_ok none
  next arguments harguments =>
    have hall := fun a ha => h a (mem_of_mem_commaSeparated? harguments a ha)
    have hchannels := fun a ha => hall a (List.mem_of_mem_take (i := 3) ha)
    dsimp only
    split
    · exact failsOnly_rgb hall one
    split
    · split
      · exact failsOnly_rgb hchannels _
      · exact failsOnly_ok none
    split
    · exact failsOnly_ok _
    split
    · split
      · exact failsOnly_ok _
      · exact failsOnly_ok none
    · exact failsOnly_ok none

/-- **A color is refused only for a run of digits**: a very long one, or one that is too long for a
channel. -/
theorem failsOnly_parseColor {s : String}
    (hlong : HasLongRun s.toList → ∀ digits, allowed (.numeralTooLong digits))
    (hchannel : HasRun channelDigitLimit s.toList → allowed .channelTooLarge) :
    FailsOnly allowed (parseColor s) := by
  have hquotient : ∀ i : Int, i.natAbs < 10 ^ channelDigitLimit ∨
      HasRun channelDigitLimit s.toList → FailsOnly allowed (quotient i 255) := by
    rintro i (hshort | hrun)
    · exact failsOnly_quotient hshort
    · unfold quotient
      split
      · exact meets_error (hchannel hrun)
      · exact failsOnly_ok _
  have htokens := meets_tokens channelDigitLimit hlong hquotient
  refine htokens.bind fun ts hts => ?_
  split
  next t hfilter =>
    have ht : t ∈ ts := (List.mem_filter.mp (hfilter ▸ List.mem_cons_self : t ∈ ts.filter _)).1
    unfold tokenColor
    split
    · exact failsOnly_ok _
    · exact failsOnly_ok _
    next name content =>
      cases hts _ ht with
      | block hcontent =>
        refine failsOnly_functionColor (fun a ha => ?_) _
        cases hcontent _ ha with
        | atom ha => exact ha
    · exact failsOnly_ok none
  next => exact failsOnly_ok none

end Css

end ThemeSheet
