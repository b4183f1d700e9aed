import ThemeSheet.Css.Safety

/-!
# Blocks that make a value unsafe

Whether a value is safe is asked of its tokens, which are nested; where it comes from is the flat
list of lexemes. Two cases need no look at the nesting. If all lexemes are atoms, the tokens are the
same atoms. And if no lexeme opens a function, but there is one that is no token, a delimiter that
no value may hold, or a bracket, then some token is unsafe at the top: what is inside a block is
inside a bracket, and a bracket outside of a function is unsafe itself.

## Main definitions

* `Lexeme.IsCalm`, an atom that is safe everywhere;
* `Lexeme.isHarmful`, `Token.isHarmful`, what is unsafe outside of functions.

## Main results

* `isSafeTerminated_of_calm`, `isSafeTerminated_ne_of_harmful`.
-/

namespace ThemeSheet.Css

/-- An atom that is safe in a value of any property. -/
def Lexeme.IsCalm (l : Lexeme) : Prop :=
  ∃ a, l = .atom a ∧ ∀ property inMath, safeAtom property inMath a = true

/-- What is unsafe outside of functions. -/
def Lexeme.isHarmful : Lexeme → Bool
  | .atom .fault => true
  | .atom (.literal s) => unsafeLiterals.contains s
  | .opening (.bracket _) => true
  | .closing _ => true
  | _ => false

/-- What opens a function. -/
def Lexeme.isFunction : Lexeme → Bool
  | .opening (.function _) => true
  | _ => false

/-- A token that is unsafe at the top, whatever it holds. -/
def Token.isHarmful : Token → Bool
  | .atom .fault => true
  | .atom (.literal s) => unsafeLiterals.contains s
  | .block (.bracket _) _ => true
  | _ => false

/-! ### Atoms -/

/-- Atoms nest to themselves. -/
theorem nestUnder_atoms (stack : List OpenBlock) (done : List Token) (atoms : List Atom)
    (rest : List Lexeme) : nestUnder stack done (atoms.map .atom ++ rest) =
      nestUnder stack ((atoms.map .atom).reverse ++ done) rest := by
  induction atoms generalizing done with
  | nil => rfl
  | cons a atoms ih =>
    rw [List.map_cons, List.cons_append, nestUnder, ih, List.map_cons, List.reverse_cons,
      List.append_assoc]
    rfl

theorem nest_atoms (atoms : List Atom) : nest (atoms.map .atom) = atoms.map .atom := by
  have h := nestUnder_atoms [] [] atoms []
  rw [List.append_nil] at h
  rw [nest, h, nestUnder, endBlocks, List.append_nil, List.reverse_reverse]

/-- Calm lexemes are atoms. -/
theorem exists_atoms_of_calm {ls : List Lexeme} (h : ∀ l ∈ ls, l.IsCalm) :
    ∃ atoms : List Atom, ls = atoms.map .atom ∧
      ∀ a ∈ atoms, ∀ property inMath, safeAtom property inMath a = true := by
  induction ls with
  | nil => exact ⟨[], rfl, by simp⟩
  | cons l ls ih =>
    obtain ⟨⟨a, rfl, ha⟩, hls⟩ := List.forall_mem_cons.mp h
    obtain ⟨atoms, rfl, hatoms⟩ := ih hls
    exact ⟨a :: atoms, rfl, List.forall_mem_cons.mpr ⟨ha, hatoms⟩⟩

theorem safeTokens_atoms {property : String} {inMath inGradient : Bool} {atoms : List Atom}
    (h : ∀ a ∈ atoms, safeAtom property inMath a = true) :
    safeTokens property inMath inGradient (atoms.map .atom) = true := by
  induction atoms with
  | nil => rfl
  | cons a atoms ih =>
    obtain ⟨ha, hatoms⟩ := List.forall_mem_cons.mp h
    rw [List.map_cons, safeTokens, safeToken, ha, ih hatoms]
    rfl

/-- **Calm lexemes before a semicolon make a safe value.** -/
theorem isSafeTerminated_of_calm {property : String} {cs : List Char} {ls : List Lexeme}
    (h : lexemes (normalize (cs ++ [';'])) = .ok (ls ++ [.atom (.literal ";")]))
    (hcalm : ∀ l ∈ ls, l.IsCalm) : isSafeTerminated property cs = .ok true := by
  obtain ⟨atoms, rfl, hatoms⟩ := exists_atoms_of_calm hcalm
  have htokens : tokens (cs ++ [';']) = .ok (atoms.map .atom ++ [.atom (.literal ";")]) := by
    have hnest := nest_atoms (atoms ++ [.literal ";"])
    rw [List.map_append, List.map_append] at hnest
    rw [tokens, h]
    exact congrArg Except.ok hnest
  have hbefore : beforeSemicolon? (atoms.map .atom ++ [.atom (.literal ";")]) =
      some (atoms.map .atom) := by
    rw [beforeSemicolon?, List.reverse_append]
    exact congrArg some (List.reverse_reverse _)
  rw [isSafeTerminated, htokens]
  show Except.ok _ = _
  rw [hbefore]
  exact congrArg Except.ok (safeTokens_atoms fun a ha => hatoms a ha property false)

/-! ### Harm -/

/-- An atom is as harmful among the tokens as among the lexemes. -/
theorem Token.isHarmful_atom (a : Atom) :
    (Token.atom a).isHarmful = (Lexeme.atom a).isHarmful := by
  cases a <;> rfl

/-- Blocks that are still open end in a bracket at the top, if they are all brackets. -/
theorem exists_harmful_of_endBlocks {stack : List OpenBlock} {done : List Token}
    (hstack : ∀ b ∈ stack, ∃ kind, b.opening = .bracket kind)
    (h : stack ≠ [] ∨ ∃ t ∈ done, t.isHarmful = true) :
    ∃ t ∈ endBlocks stack done, t.isHarmful = true := by
  induction stack generalizing done with
  | nil => exact h.resolve_left (by simp)
  | cons b stack ih =>
    obtain ⟨⟨kind, hkind⟩, hstack⟩ := List.forall_mem_cons.mp hstack
    rw [endBlocks]
    refine ih hstack (.inr ⟨_, List.mem_cons_self, ?_⟩)
    rw [hkind]
    rfl

/-- **Harm comes to the top**, where nothing opens a function. -/
theorem exists_harmful_of_nestUnder {stack : List OpenBlock} {done : List Token}
    {ls : List Lexeme} (hstack : ∀ b ∈ stack, ∃ kind, b.opening = .bracket kind)
    (hls : ∀ l ∈ ls, l.isFunction = false)
    (h : (stack ≠ [] ∨ ∃ t ∈ done, t.isHarmful = true) ∨ ∃ l ∈ ls, l.isHarmful = true) :
    ∃ t ∈ nestUnder stack done ls, t.isHarmful = true := by
  induction ls generalizing stack done with
  | nil =>
    rw [nestUnder]
    exact exists_harmful_of_endBlocks hstack (h.resolve_right (by simp))
  | cons l ls ih =>
    obtain ⟨hl, hrest⟩ := List.forall_mem_cons.mp hls
    clear hls
    cases l with
    | atom a =>
      rw [nestUnder]
      refine ih hstack hrest ?_
      rcases h with (h | ⟨t, ht, hharm⟩) | ⟨l, hmem, hharm⟩
      · exact .inl (.inl h)
      · exact .inl (.inr ⟨t, List.mem_cons_of_mem _ ht, hharm⟩)
      · rcases List.mem_cons.mp hmem with rfl | hmem
        · refine .inl (.inr ⟨.atom a, List.mem_cons_self, ?_⟩)
          rwa [Token.isHarmful_atom]
        · exact .inr ⟨l, hmem, hharm⟩
    | opening o =>
      cases o with
      | function f => cases hl
      | bracket kind =>
        rw [nestUnder]
        exact ih (List.forall_mem_cons.mpr ⟨⟨kind, rfl⟩, hstack⟩) hrest (.inl (.inl (by simp)))
    | closing kind =>
      cases stack with
      | nil =>
        rw [nestUnder]
        exact ih hstack hrest (.inl (.inr ⟨_, List.mem_cons_self, rfl⟩))
      | cons b below =>
        rw [nestUnder]
        split
        · obtain ⟨⟨opened, hopened⟩, hbelow⟩ := List.forall_mem_cons.mp hstack
          refine ih hbelow hrest (.inl (.inr ⟨_, List.mem_cons_self, ?_⟩))
          rw [hopened]
          rfl
        · exact ih hstack hrest (.inl (.inl (by simp)))

theorem safeToken_of_harmful {property : String} {t : Token} (h : t.isHarmful = true) :
    safeToken property false false t = false := by
  cases t with
  | atom a => cases a <;> simp_all [Token.isHarmful, safeToken, safeAtom]
  | block o content =>
    cases o with
    | function f => cases h
    | bracket kind => simp [safeToken]

theorem safeTokens_of_harmful {property : String} {ts : List Token}
    (h : ∃ t ∈ ts, t.isHarmful = true) : safeTokens property false false ts = false := by
  induction ts with
  | nil => simp at h
  | cons t ts ih =>
    obtain ⟨u, hu, hharm⟩ := h
    rw [safeTokens]
    rcases List.mem_cons.mp hu with rfl | hu
    · rw [safeToken_of_harmful hharm, Bool.false_and]
    · rw [ih ⟨u, hu, hharm⟩, Bool.and_false]

/-- **A harmful lexeme makes a value unsafe**, where nothing opens a function. -/
theorem isSafeTerminated_ne_of_harmful {property : String} {cs : List Char} {ls : List Lexeme}
    (h : lexemes (normalize (cs ++ [';'])) = .ok ls) (hfun : ∀ l ∈ ls, l.isFunction = false)
    (hharm : ∃ l ∈ ls, l.isHarmful = true) : isSafeTerminated property cs ≠ .ok true := by
  obtain ⟨t, ht, hharmful⟩ : ∃ t ∈ nestUnder [] [] ls, t.isHarmful = true :=
    exists_harmful_of_nestUnder (by simp) hfun (.inr hharm)
  have htokens : tokens (cs ++ [';']) = .ok (nest ls) := by
    rw [tokens, h]
    rfl
  intro hsafe
  rw [isSafeTerminated, htokens] at hsafe
  have hsafe := Except.ok.inj hsafe
  split at hsafe
  next before hbefore =>
    have hmem : t ∈ before := by
      -- The semicolon that is taken off is not the harmful token.
      rw [beforeSemicolon?, nest, List.reverse_reverse] at hbefore
      split at hbefore
      next rest hrest =>
        cases hbefore
        rw [hrest] at ht
        rcases List.mem_cons.mp ht with rfl | ht
        · cases hharmful
        · exact List.mem_reverse.mpr ht
      next => cases hbefore
    rw [safeTokens_of_harmful ⟨t, hmem, hharmful⟩] at hsafe
    cases hsafe
  next => cases hsafe

end ThemeSheet.Css
