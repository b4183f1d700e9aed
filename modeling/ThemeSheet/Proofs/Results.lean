/-!
# Computations that may be refused

What a computation that returns has gone through: the parts of it that came first have returned too,
and what each step of a fold keeps has been kept to the end. A computation on each item of a list
returns if it does so on every item, and then it returns nothing but what they gave.

## Main results

* `Result.bind_eq_ok_iff`, `Result.exists_of_bind`, `Result.foldlM_induction`;
* `Result.mem_mapM_iff`, `Result.exists_of_mapM`, `Result.exists_mapM`;
* `Result.mapM_eq_ok_iff_map`, `Result.mapM_congr`, `Result.mapM_eq_map`, `Result.map_eq_map`,
  `Result.pairwise_mapM`: computations on the items compared;
* `Result.foldlM_eq_gather`: steps that each put what they find into a state;
* `Result.mem_of_keeping`, `Result.keeping_eq_filter`, `Result.keeping_kept`: what is kept of a
  list;
* `Result.Meets.bind`, `Result.meets_mapM`, `Result.failsOnly_foldlM`, `Result.failsOnly_keeping`: a
  computation meets a contract if its parts do.
-/

namespace ThemeSheet.Result

variable {ε σ α β : Type} {l : List α}

/-- What came first has returned. -/
theorem exists_of_bind {x : Except ε α} {f : α → Except ε β} {b : β} (h : x >>= f = .ok b) :
    ∃ a, x = .ok a ∧ f a = .ok b := by
  cases x with
  | error e => cases h
  | ok a => exact ⟨a, rfl, h⟩

/-- A computation returns if its first part does and what follows does. -/
theorem bind_eq_ok_iff {x : Except ε α} {f : α → Except ε β} {b : β} :
    x >>= f = .ok b ↔ ∃ a, x = .ok a ∧ f a = .ok b := by
  refine ⟨exists_of_bind, ?_⟩
  rintro ⟨a, rfl, h⟩
  exact h

/-- What something else is made of has returned. -/
theorem exists_of_map {x : Except ε α} {f : α → β} {b : β} (h : x.map f = .ok b) :
    ∃ a, x = .ok a ∧ f a = b := by
  cases x with
  | error e => cases h
  | ok a => exact ⟨a, rfl, Except.ok.inj h⟩

/-- What stops a computation stops its first part or what follows. -/
theorem error_of_bind {x : Except ε α} {f : α → Except ε β} {e : ε} (h : x >>= f = .error e) :
    x = .error e ∨ ∃ a, x = .ok a ∧ f a = .error e := by
  cases x with
  | error e' =>
    cases h
    exact .inl rfl
  | ok a => exact .inr ⟨a, rfl, h⟩

/-- **What every step keeps has been kept to the end.** -/
theorem foldlM_induction {motive : σ → Prop} {f : σ → α → Except ε σ} {s r : σ}
    (h : l.foldlM f s = .ok r) (hs : motive s)
    (hstep : ∀ s a s', a ∈ l → motive s → f s a = .ok s' → motive s') : motive r := by
  induction l generalizing s with
  | nil =>
    cases h
    exact hs
  | cons a l ih =>
    rw [List.foldlM_cons] at h
    obtain ⟨s', hs', h⟩ := exists_of_bind h
    exact ih h (hstep s a s' List.mem_cons_self hs hs')
      fun s b s' hb => hstep s b s' (List.mem_cons_of_mem a hb)

/-- What is returned for a list was given by one of its items. -/
theorem exists_of_mem_mapM {f : α → Except ε β} {bs : List β} (h : l.mapM f = .ok bs) {b : β}
    (hb : b ∈ bs) : ∃ a ∈ l, f a = .ok b := by
  induction l generalizing bs with
  | nil =>
    cases h
    cases hb
  | cons a l ih =>
    rw [List.mapM_cons] at h
    obtain ⟨c, hc, h⟩ := exists_of_bind h
    obtain ⟨cs, hcs, h⟩ := exists_of_bind h
    cases h
    rcases List.mem_cons.mp hb with rfl | hb
    · exact ⟨a, List.mem_cons_self, hc⟩
    · obtain ⟨a', ha', hb'⟩ := ih hcs hb
      exact ⟨a', List.mem_cons_of_mem a ha', hb'⟩

/-- A computation that returns on a list returns on each of its items. -/
theorem exists_of_mapM {f : α → Except ε β} {bs : List β} (h : l.mapM f = .ok bs) {a : α}
    (ha : a ∈ l) : ∃ b ∈ bs, f a = .ok b := by
  induction l generalizing bs with
  | nil => cases ha
  | cons c l ih =>
    rw [List.mapM_cons] at h
    obtain ⟨b, hb, h⟩ := exists_of_bind h
    obtain ⟨cs, hcs, h⟩ := exists_of_bind h
    cases h
    rcases List.mem_cons.mp ha with rfl | ha
    · exact ⟨b, List.mem_cons_self, hb⟩
    · obtain ⟨b', hb', hf⟩ := ih hcs ha
      exact ⟨b', List.mem_cons_of_mem b hb', hf⟩

/-- **What is returned for a list** is what its items give. -/
theorem mem_mapM_iff {f : α → Except ε β} {bs : List β} (h : l.mapM f = .ok bs) {b : β} :
    b ∈ bs ↔ ∃ a ∈ l, f a = .ok b := by
  refine ⟨exists_of_mem_mapM h, ?_⟩
  rintro ⟨a, ha, hb⟩
  obtain ⟨b', hb', heq⟩ := exists_of_mapM h ha
  rw [hb] at heq
  cases heq
  exact hb'

/-- What is returned for two lists, one after the other. -/
theorem mapM_append_eq_ok_iff {f : α → Except ε β} {l' : List α} {bs : List β} :
    (l ++ l').mapM f = .ok bs ↔
      ∃ cs, l.mapM f = .ok cs ∧ ∃ ds, l'.mapM f = .ok ds ∧ cs ++ ds = bs := by
  simp only [List.mapM_append, bind_eq_ok_iff, pure, Except.pure, Except.ok.injEq]

/-- What is returned for a list is what its items return, one by one. -/
theorem mapM_eq_ok_iff_map {f : α → Except ε β} {bs : List β} :
    l.mapM f = .ok bs ↔ l.map f = bs.map .ok := by
  induction l generalizing bs with
  | nil => cases bs <;> simp [pure, Except.pure]
  | cons a l ih =>
    simp only [List.mapM_cons, bind_eq_ok_iff, ih, pure, Except.pure, Except.ok.injEq]
    cases bs with
    | nil => simp
    | cons b bs => simp

/-- What stops a computation on a list stops it on one of the items. -/
theorem error_of_mapM {f : α → Except ε β} {e : ε} (h : l.mapM f = .error e) :
    ∃ a ∈ l, f a = .error e := by
  induction l with
  | nil => cases h
  | cons a l ih =>
    rw [List.mapM_cons] at h
    rcases error_of_bind h with ha | ⟨b, -, h⟩
    · exact ⟨a, List.mem_cons_self, ha⟩
    · rcases error_of_bind h with hl | ⟨bs, -, h⟩
      · obtain ⟨a', ha', h⟩ := ih hl
        exact ⟨a', List.mem_cons_of_mem a ha', h⟩
      · cases h

/-- What is given for an item is among what is returned for the list. -/
theorem mem_of_mapM {f : α → Except ε β} {bs : List β} (h : l.mapM f = .ok bs) {a : α} {b : β}
    (ha : a ∈ l) (hb : f a = .ok b) : b ∈ bs :=
  (mem_mapM_iff h).mpr ⟨a, ha, hb⟩

/-- A computation that returns on every item returns on the list. -/
theorem exists_mapM {f : α → Except ε β} (h : ∀ a ∈ l, ∃ b, f a = .ok b) :
    ∃ bs, l.mapM f = .ok bs := by
  induction l with
  | nil => exact ⟨[], rfl⟩
  | cons a l ih =>
    obtain ⟨⟨b, hb⟩, hl⟩ := List.forall_mem_cons.mp h
    obtain ⟨bs, hbs⟩ := ih hl
    exact ⟨b :: bs, by rw [List.mapM_cons, hb, hbs]; rfl⟩

/-- Computations that agree on every item agree on the list. -/
theorem mapM_congr {f g : α → Except ε β} (h : ∀ a ∈ l, f a = g a) : l.mapM f = l.mapM g := by
  induction l with
  | nil => rfl
  | cons a l ih =>
    obtain ⟨ha, hl⟩ := List.forall_mem_cons.mp h
    rw [List.mapM_cons, List.mapM_cons, ha, ih hl]

/-- Computations that give on every item what is made of something else give that on the list. -/
theorem mapM_eq_map {γ : Type} {f : α → Except ε β} {g : α → Except ε γ} {change : β → γ}
    {bs : List β} (h : l.mapM f = .ok bs)
    (hg : ∀ a ∈ l, ∀ b, f a = .ok b → g a = .ok (change b)) : l.mapM g = .ok (bs.map change) := by
  induction l generalizing bs with
  | nil =>
    cases h
    rfl
  | cons a l ih =>
    rw [List.mapM_cons] at h
    obtain ⟨b, hb, h⟩ := exists_of_bind h
    obtain ⟨cs, hcs, h⟩ := exists_of_bind h
    cases h
    rw [List.mapM_cons, hg a List.mem_cons_self b hb,
      ih hcs fun c hc => hg c (List.mem_cons_of_mem a hc)]
    rfl

/-- What is made of everything that is returned, if that is known for every item. -/
theorem map_eq_map {γ : Type} {f : α → Except ε β} {change : β → γ} {g : α → γ} {bs : List β}
    (h : l.mapM f = .ok bs) (hg : ∀ a ∈ l, ∀ b, f a = .ok b → change b = g a) :
    bs.map change = l.map g := by
  have hmap : l.mapM (fun a => (.ok (g a) : Except ε γ)) = .ok (bs.map change) :=
    mapM_eq_map h fun a ha b hb => congrArg Except.ok (hg a ha b hb).symm
  exact Except.ok.inj (hmap.symm.trans List.mapM_pure)

/-- What is returned for a list is related two by two if this is so for what its items return. -/
theorem pairwise_mapM {f : α → Except ε β} {r : β → β → Prop} {bs : List β}
    (h : l.mapM f = .ok bs)
    (hr : l.Pairwise fun a a' => ∀ b b', f a = .ok b → f a' = .ok b' → r b b') : bs.Pairwise r := by
  induction l generalizing bs with
  | nil =>
    cases h
    exact .nil
  | cons a l ih =>
    rw [List.mapM_cons] at h
    obtain ⟨b, hb, h⟩ := exists_of_bind h
    obtain ⟨cs, hcs, h⟩ := exists_of_bind h
    cases h
    obtain ⟨ha, hl⟩ := List.pairwise_cons.mp hr
    refine .cons (fun c hc => ?_) (ih hcs hl)
    obtain ⟨a', ha', hc⟩ := exists_of_mem_mapM hcs hc
    exact ha a' ha' b c hb hc

/-- Every step has returned. -/
theorem exists_of_foldlM {f : σ → α → Except ε σ} {s r : σ} (h : l.foldlM f s = .ok r) {a : α}
    (ha : a ∈ l) : ∃ t t', f t a = .ok t' := by
  induction l generalizing s with
  | nil => cases ha
  | cons b l ih =>
    rw [List.foldlM_cons] at h
    obtain ⟨s', hs', h⟩ := exists_of_bind h
    rcases List.mem_cons.mp ha with rfl | ha
    · exact ⟨s, s', hs'⟩
    · exact ih h ha

/-- Steps that all return, return one after the other. -/
theorem exists_foldlM {f : σ → α → Except ε σ} (h : ∀ s, ∀ a ∈ l, ∃ s', f s a = .ok s') (s : σ) :
    ∃ r, l.foldlM f s = .ok r := by
  induction l generalizing s with
  | nil => exact ⟨s, rfl⟩
  | cons a l ih =>
    obtain ⟨s', hs'⟩ := h s a List.mem_cons_self
    obtain ⟨r, hr⟩ := ih (fun s b hb => h s b (List.mem_cons_of_mem a hb)) s'
    exact ⟨r, by rw [List.foldlM_cons, hs']; exact hr⟩

/-- Steps that agree on every item agree on the list. -/
theorem foldlM_congr {f g : σ → α → Except ε σ} (h : ∀ s, ∀ a ∈ l, f s a = g s a) (s : σ) :
    l.foldlM f s = l.foldlM g s := by
  induction l generalizing s with
  | nil => rfl
  | cons a l ih =>
    rw [List.foldlM_cons, List.foldlM_cons, h s a List.mem_cons_self]
    exact congrArg _ (funext fun s => ih (fun s b hb => h s b (List.mem_cons_of_mem a hb)) s)

/-- Steps on a part of a state are steps on the state. -/
theorem foldlM_hom {τ : Type} {put : τ → σ} {f : σ → α → Except ε σ} {g : τ → α → Except ε τ}
    (h : ∀ t, ∀ a ∈ l, f (put t) a = (g t a).map put) (t : τ) :
    l.foldlM f (put t) = (l.foldlM g t).map put := by
  induction l generalizing t with
  | nil => rfl
  | cons a l ih =>
    rw [List.foldlM_cons, List.foldlM_cons, h t a List.mem_cons_self]
    cases g t a with
    | error e => rfl
    | ok t' => exact ih (fun t b hb => h t b (List.mem_cons_of_mem a hb)) t'

/-! ### Contracts -/

/-- A computation gives what meets a condition, or is refused for a reason that is allowed. -/
structure Meets (allowed : ε → Prop) (post : α → Prop) (x : Except ε α) : Prop where
  refused : ∀ e, x = .error e → allowed e
  given : ∀ a, x = .ok a → post a

/-- A computation is refused for no other reasons than allowed ones. -/
abbrev FailsOnly (allowed : ε → Prop) (x : Except ε α) : Prop := Meets allowed (fun _ => True) x

section Contracts

variable {allowed : ε → Prop} {post post' : α → Prop} {x : Except ε α}

theorem meets_ok {a : α} (h : post a) : Meets allowed post (.ok a) where
  refused _ he := by cases he
  given b hb := Except.ok.inj hb ▸ h

theorem meets_error {e : ε} (h : allowed e) : Meets allowed post (.error e) where
  refused e' he := Except.error.inj he ▸ h
  given _ ha := by cases ha

theorem failsOnly_ok (a : α) : FailsOnly allowed (.ok a) := meets_ok True.intro

theorem Meets.mono (h : Meets allowed post x) (hpost : ∀ a, post a → post' a) :
    Meets allowed post' x :=
  ⟨h.refused, fun a ha => hpost a (h.given a ha)⟩

theorem Meets.failsOnly (h : Meets allowed post x) : FailsOnly allowed x :=
  h.mono fun _ _ => True.intro

/-- **There is a result or an allowed reason.** -/
theorem FailsOnly.cases (h : FailsOnly allowed x) :
    (∃ a, x = .ok a) ∨ ∃ e, x = .error e ∧ allowed e := by
  cases x with
  | ok a => exact .inl ⟨a, rfl⟩
  | error e => exact .inr ⟨e, rfl, h.refused e rfl⟩

/-- **What follows may rely on the condition that the first part meets.** -/
theorem Meets.bind {f : α → Except ε β} {after : β → Prop} (h : Meets allowed post x)
    (hf : ∀ a, post a → Meets allowed after (f a)) : Meets allowed after (x >>= f) := by
  cases x with
  | error e => exact meets_error (h.refused e rfl)
  | ok a => exact hf a (h.given a rfl)

theorem FailsOnly.bind {f : α → Except ε β} {after : β → Prop} (h : FailsOnly allowed x)
    (hf : ∀ a, Meets allowed after (f a)) : Meets allowed after (x >>= f) :=
  Meets.bind h fun a _ => hf a

theorem Meets.map {f : α → β} {after : β → Prop} (h : Meets allowed post x)
    (hf : ∀ a, post a → after (f a)) : Meets allowed after (x.map f) := by
  cases x with
  | error e => exact meets_error (h.refused e rfl)
  | ok a => exact meets_ok (hf a (h.given a rfl))

theorem meets_mapM {f : α → Except ε β} {each : β → Prop}
    (h : ∀ a ∈ l, Meets allowed each (f a)) :
    Meets allowed (fun bs => ∀ b ∈ bs, each b) (l.mapM f) := by
  induction l with
  | nil => exact meets_ok (List.forall_mem_nil _)
  | cons a l ih =>
    obtain ⟨ha, hl⟩ := List.forall_mem_cons.mp h
    rw [List.mapM_cons]
    refine ha.bind fun b hb => (ih hl).bind fun bs hbs => ?_
    exact meets_ok (List.forall_mem_cons.mpr ⟨hb, hbs⟩)

theorem failsOnly_mapM {f : α → Except ε β} (h : ∀ a ∈ l, FailsOnly allowed (f a)) :
    FailsOnly allowed (l.mapM f) :=
  (meets_mapM h).failsOnly

theorem failsOnly_foldlM {f : σ → α → Except ε σ} (h : ∀ s, ∀ a ∈ l, FailsOnly allowed (f s a))
    (s : σ) : FailsOnly allowed (l.foldlM f s) := by
  induction l generalizing s with
  | nil => exact failsOnly_ok s
  | cons a l ih =>
    rw [List.foldlM_cons]
    exact (h s a List.mem_cons_self).bind fun s' =>
      ih (fun s b hb => h s b (List.mem_cons_of_mem a hb)) s'

end Contracts

/-! ### What is found -/

/-- All that is found for the items of a list, in one list. -/
def gather (found : α → Except ε (List β)) (l : List α) : Except ε (List β) :=
  (l.mapM found).map List.flatten

section Gather

variable {found : α → Except ε (List β)}

@[simp] theorem gather_nil : gather found [] = .ok [] := rfl

theorem gather_cons (a : α) (l : List α) : gather found (a :: l) = do
    let bs ← found a
    let others ← gather found l
    return bs ++ others := by
  rw [gather, List.mapM_cons]
  cases found a with
  | error e => rfl
  | ok bs =>
    rw [gather]
    show Except.map _ (do let groups ← l.mapM found; return bs :: groups) = (do
      let others ← (l.mapM found).map List.flatten
      return bs ++ others)
    cases l.mapM found with
    | error e => rfl
    | ok groups => rfl

theorem gather_congr {found' : α → Except ε (List β)} (h : ∀ a ∈ l, found a = found' a) :
    gather found l = gather found' l := by
  rw [gather, gather, mapM_congr h]

theorem gather_singleton (a : α) : gather found [a] = found a := by
  rw [gather_cons]
  cases found a with
  | error e => rfl
  | ok bs => exact congrArg Except.ok (List.append_nil bs)

theorem gather_append (l l' : List α) : gather found (l ++ l') = do
    let bs ← gather found l
    let others ← gather found l'
    return bs ++ others := by
  induction l with
  | nil =>
    show gather found l' = (do let others ← gather found l'; return [] ++ others)
    cases gather found l' <;> rfl
  | cons a l ih =>
    rw [List.cons_append, gather_cons, gather_cons, ih]
    cases found a with
    | error e => rfl
    | ok bs =>
      cases gather found l with
      | error e => rfl
      | ok cs =>
        cases gather found l' with
        | error e => rfl
        | ok ds => exact congrArg Except.ok (List.append_assoc bs cs ds).symm

/-- **What has been found is found again**, if that holds of what is found for every item. -/
theorem gather_found {again : β → Except ε (List β)} {bs : List β}
    (h : ∀ a ∈ l, ∀ cs, found a = .ok cs → gather again cs = .ok cs)
    (hl : gather found l = .ok bs) : gather again bs = .ok bs := by
  induction l generalizing bs with
  | nil =>
    cases hl
    rfl
  | cons a l ih =>
    rw [gather_cons] at hl
    obtain ⟨cs, hcs, hl⟩ := exists_of_bind hl
    obtain ⟨others, hothers, hl⟩ := exists_of_bind hl
    cases hl
    obtain ⟨ha, hrest⟩ := List.forall_mem_cons.mp h
    rw [gather_append, ha cs hcs, ih hrest hothers]
    rfl

/-- What is found for a list is found for one of its items. -/
theorem mem_of_gather {bs : List β} (h : gather found l = .ok bs) {b : β} :
    b ∈ bs ↔ ∃ a ∈ l, ∃ cs, found a = .ok cs ∧ b ∈ cs := by
  induction l generalizing bs with
  | nil =>
    cases h
    simp
  | cons a l ih =>
    rw [gather_cons] at h
    obtain ⟨cs, hcs, h⟩ := exists_of_bind h
    obtain ⟨others, hothers, h⟩ := exists_of_bind h
    cases h
    rw [List.mem_append, ih hothers]
    simp [hcs]

/-- What is found for a list is found for each of its items. -/
theorem exists_of_gather {bs : List β} (h : gather found l = .ok bs) {a : α} (ha : a ∈ l) :
    ∃ cs, found a = .ok cs := by
  induction l generalizing bs with
  | nil => cases ha
  | cons c l ih =>
    rw [gather_cons] at h
    obtain ⟨cs, hcs, h⟩ := exists_of_bind h
    obtain ⟨others, hothers, h⟩ := exists_of_bind h
    rcases List.mem_cons.mp ha with rfl | ha
    · exact ⟨cs, hcs⟩
    · exact ih hothers ha

/-- Where nothing is found for any item, nothing is found. -/
theorem gather_eq_nil (h : ∀ a ∈ l, found a = .ok []) : gather found l = .ok [] := by
  induction l with
  | nil => exact gather_nil
  | cons a l ih =>
    obtain ⟨ha, hl⟩ := List.forall_mem_cons.mp h
    rw [gather_cons, ha, ih hl]
    rfl

/-- Steps that each put what they find into a state put it all there in one go. -/
theorem foldlM_eq_gather {f : σ → α → Except ε σ} {put : σ → List β → σ}
    (hnil : ∀ s, put s [] = s) (happend : ∀ s bs cs, put s (bs ++ cs) = put (put s bs) cs)
    (hf : ∀ s, ∀ a ∈ l, f s a = (found a).map (put s)) (s : σ) :
    l.foldlM f s = (gather found l).map (put s) := by
  induction l generalizing s with
  | nil => exact congrArg Except.ok (hnil s).symm
  | cons a l ih =>
    rw [List.foldlM_cons, gather_cons, hf s a List.mem_cons_self]
    cases found a with
    | error e => rfl
    | ok bs =>
      have hrest := ih (fun s b hb => hf s b (List.mem_cons_of_mem a hb)) (put s bs)
      refine hrest.trans ?_
      dsimp only [bind, Except.bind]
      cases gather found l with
      | error e => rfl
      | ok others => exact congrArg Except.ok (happend s bs others).symm

end Gather

/-! ### Keeping what passes -/

/-- Whether a check has been passed. -/
def passes : Except ε Bool → Bool
  | .ok passed => passed
  | .error _ => false

theorem passes_eq_true {x : Except ε Bool} : passes x = true ↔ x = .ok true := by
  cases x with
  | error e => exact iff_of_false Bool.false_ne_true (fun h => by cases h)
  | ok passed => exact ⟨congrArg Except.ok, Except.ok.inj⟩

section Keeping

variable {check : α → Except ε Bool} (keeping : List α → Except ε (List α))
  (hnil : keeping [] = .ok [])
  (hcons : ∀ a l, keeping (a :: l) = do
    let passed ← check a
    let others ← keeping l
    return if passed then a :: others else others)
include hnil hcons

/-- What is kept of a list by a check that may be refused is one of its items, and has passed. -/
theorem mem_of_keeping {kept : List α} (h : keeping l = .ok kept) {b : α} (hb : b ∈ kept) :
    b ∈ l ∧ check b = .ok true := by
  induction l generalizing kept with
  | nil =>
    rw [hnil] at h
    cases h
    cases hb
  | cons a l ih =>
    rw [hcons] at h
    obtain ⟨passed, hpassed, h⟩ := exists_of_bind h
    obtain ⟨others, hothers, h⟩ := exists_of_bind h
    cases h
    have hother : b ∈ others → b ∈ a :: l ∧ check b = .ok true := fun hb =>
      (ih hothers hb).imp_left (List.mem_cons_of_mem a)
    split at hb
    next htrue =>
      rcases List.mem_cons.mp hb with rfl | hb
      · rw [htrue] at hpassed
        exact ⟨List.mem_cons_self, hpassed⟩
      · exact hother hb
    next => exact hother hb

/-- What is kept of a list are its items that pass. -/
theorem keeping_eq_filter {kept : List α} (h : keeping l = .ok kept) :
    kept = l.filter fun a => passes (check a) := by
  induction l generalizing kept with
  | nil =>
    rw [hnil] at h
    cases h
    rfl
  | cons a l ih =>
    rw [hcons] at h
    obtain ⟨passed, hpassed, h⟩ := exists_of_bind h
    obtain ⟨others, hothers, h⟩ := exists_of_bind h
    cases h
    rw [List.filter_cons, hpassed, ih hothers]
    rfl

/-- **What has been kept is kept again.** -/
theorem keeping_kept {kept : List α} (h : keeping l = .ok kept) : keeping kept = .ok kept := by
  induction l generalizing kept with
  | nil =>
    rw [hnil] at h
    cases h
    exact hnil
  | cons a l ih =>
    rw [hcons] at h
    obtain ⟨passed, hpassed, h⟩ := exists_of_bind h
    obtain ⟨others, hothers, h⟩ := exists_of_bind h
    cases h
    cases passed with
    | false => exact ih hothers
    | true =>
      rw [if_pos rfl, hcons, hpassed, ih hothers]
      rfl

/-- What can be checked is kept or dropped. -/
theorem exists_keeping (h : ∀ a ∈ l, ∃ passed, check a = .ok passed) :
    ∃ kept, keeping l = .ok kept := by
  induction l with
  | nil => exact ⟨[], hnil⟩
  | cons a l ih =>
    obtain ⟨⟨passed, hpassed⟩, hl⟩ := List.forall_mem_cons.mp h
    obtain ⟨others, hothers⟩ := ih hl
    exact ⟨_, by rw [hcons, hpassed, hothers]; rfl⟩

/-- Keeping is refused for no other reasons than checking is. -/
theorem failsOnly_keeping {allowed : ε → Prop} (h : ∀ a ∈ l, FailsOnly allowed (check a)) :
    FailsOnly allowed (keeping l) := by
  induction l with
  | nil =>
    rw [hnil]
    exact failsOnly_ok _
  | cons a l ih =>
    obtain ⟨ha, hl⟩ := List.forall_mem_cons.mp h
    rw [hcons]
    exact ha.bind fun passed => (ih hl).bind fun others => failsOnly_ok _

end Keeping

end ThemeSheet.Result
