import ThemeSheet.Proofs.Schema.Places

/-!
# Pruning twice

What is pruned to one schema and then to another has been pruned to what the two have in common: the
fields that both have, each with what its two schemas have in common, where a leaf asks for nothing
and leaves the word to the other. A mapping that loses its last entry goes in either pass, and if it
goes in the second then it would have gone in one pass to the common schema as well; so emptied
sections need no account of their own.

The schemas of theme trees that are made for two choices of names have in common the schema that is
made for the common names. The order of the names and how often each is given say nothing about the
fields of a schema, and so nothing about what is left.

## Main definitions

* `Schema.IsMeet`, of a schema that asks for what two schemas ask for.

## Main results

* `Schema.pruneEntries_pruneEntries`: pruning to two schemas one after the other;
* `Schema.isMeet_wholeTheme`: what the schemas of theme trees have in common;
* `sanitize_twice`: pruning for two choices of names is pruning for the common names.
-/

namespace ThemeSheet

namespace Schema

/-- A schema that asks for what two schemas ask for. A leaf asks for nothing. -/
inductive IsMeet : Schema → Schema → Schema → Prop
  | any_left (s : Schema) : IsMeet .any s s
  | any_right (s : Schema) : IsMeet s .any s
  | fields {fs gs ms : List (String × Schema)}
      (hdom : ∀ name, (field? ms name).isSome =
        ((field? fs name).isSome && (field? gs name).isSome))
      (hmeet : ∀ name s t u, field? fs name = some s → field? gs name = some t →
        field? ms name = some u → IsMeet s t u) :
      IsMeet (.fields fs) (.fields gs) (.fields ms)

variable {fs gs ms : List (String × Schema)} {s t u : Schema} {es : Entries}

/-- What schemas and their common schema have at a key: one of the two has nothing, nor has the
common schema, or each has a schema and these have the third in common. -/
theorem IsMeet.ofKey? (h : IsMeet (.fields fs) (.fields gs) (.fields ms)) (k : Key) :
    ((Schema.ofKey? fs k = none ∨ Schema.ofKey? gs k = none) ∧ Schema.ofKey? ms k = none) ∨
      ∃ s t u, Schema.ofKey? fs k = some s ∧ Schema.ofKey? gs k = some t ∧
        Schema.ofKey? ms k = some u ∧ IsMeet s t u := by
  cases k with
  | text name =>
    simp only [ofKey?_text]
    cases h with
    | fields hdom hmeet =>
      specialize hdom name
      specialize hmeet name
      cases hf : field? fs name with
      | none => exact .inl ⟨.inl rfl, by simpa [hf] using hdom⟩
      | some s =>
        cases hg : field? gs name with
        | none => exact .inl ⟨.inr rfl, by simpa [hg] using hdom⟩
        | some t =>
          rw [hf, hg] at hdom
          obtain ⟨u, hu⟩ := Option.isSome_iff_exists.mp hdom
          exact .inr ⟨s, t, u, rfl, rfl, hu, hmeet s t u hf hg hu⟩
  | _ => exact .inl ⟨.inl rfl, rfl⟩

/-- What is kept of a value by two schemas is what is kept by the common one, if this is so for the
entries of the value. -/
theorem kept?_kept? (h : IsMeet s t u) (v : Value)
    (hinner : ∀ fs gs ms inner mark, v = .map inner mark →
      IsMeet (.fields fs) (.fields gs) (.fields ms) →
      pruneEntries gs (pruneEntries fs inner) = pruneEntries ms inner) :
    (kept? (some s) v).bind (kept? (some t)) = kept? (some u) v := by
  cases h with
  | any_left => rfl
  | any_right => cases kept? (some s) v <;> rfl
  | @fields fs gs ms hdom hmeet =>
    cases v with
    | map inner mark =>
      specialize hinner fs gs ms inner mark rfl (.fields hdom hmeet)
      rw [kept?, kept?, prune_map, prune_map, ← hinner]
      cases pruneEntries fs inner with
      | nil => rw [pruneEntries]; rfl
      | cons e kept => rfl
    | _ => rw [kept?, kept?, prune_of_not_map rfl, prune_of_not_map rfl]; rfl

/-- **Pruning to two schemas, one after the other,** is pruning to what they have in common. -/
theorem pruneEntries_pruneEntries {fs gs ms : List (String × Schema)}
    (h : IsMeet (.fields fs) (.fields gs) (.fields ms)) (es : Entries) :
    pruneEntries gs (pruneEntries fs es) = pruneEntries ms es := by
  match es with
  | [] => rw [pruneEntries, pruneEntries, pruneEntries]
  | (k, v) :: rest =>
    have hrest := pruneEntries_pruneEntries h rest
    rw [pruneEntries_cons fs, pruneEntries_cons ms]
    obtain ⟨hone, hnone⟩ | ⟨s, t, u, hs, ht, hu, hmeet⟩ := h.ofKey? k
    · rw [hnone]
      rcases hone with hf | hg
      · rw [hf]
        exact hrest
      · cases kept? (ofKey? fs k) v with
        | none => exact hrest
        | some w =>
          dsimp only
          rw [pruneEntries_cons, hg]
          exact hrest
    · have hv := kept?_kept? hmeet v fun fs gs ms inner mark heq hsub => by
        subst heq
        exact pruneEntries_pruneEntries hsub inner
      rw [hs, hu, ← hv]
      cases kept? (some s) v with
      | none => exact hrest
      | some w =>
        dsimp only [Option.bind_some]
        rw [pruneEntries_cons, ht, hrest]
termination_by sizeOf es

/-! ### What schemas have in common -/

theorem isMeet_nil : IsMeet (.fields []) (.fields []) (.fields []) :=
  .fields (fun _ => rfl) fun _ _ _ _ h => nomatch h

/-- A field more on either side. -/
theorem isMeet_cons (name : String) (h : IsMeet s t u)
    (hrest : IsMeet (.fields fs) (.fields gs) (.fields ms)) :
    IsMeet (.fields ((name, s) :: fs)) (.fields ((name, t) :: gs)) (.fields ((name, u) :: ms)) := by
  cases hrest with
  | fields hdom hmeet =>
    refine .fields (fun other => ?_) fun other s' t' u' hs' ht' hu' => ?_
    · specialize hdom other
      simp only [field?, List.lookup_cons] at hdom ⊢
      cases other == name with
      | true => rfl
      | false => exact hdom
    · specialize hmeet other s' t' u'
      simp only [field?, List.lookup_cons] at hs' ht' hu' hmeet
      cases hname : other == name with
      | true =>
        rw [hname] at hs' ht' hu'
        cases hs'
        cases ht'
        cases hu'
        exact h
      | false =>
        rw [hname] at hs' ht' hu'
        exact hmeet hs' ht' hu'

mutual

/-- A schema has itself in common with itself. -/
theorem isMeet_self : ∀ s : Schema, IsMeet s s s
  | .any => .any_left .any
  | .fields fs => isMeet_fields_self fs

theorem isMeet_fields_self :
    ∀ fs : List (String × Schema), IsMeet (.fields fs) (.fields fs) (.fields fs)
  | [] => isMeet_nil
  | (name, s) :: rest => isMeet_cons name (isMeet_self s) (isMeet_fields_self rest)

end

/-- The same fields in front on either side. -/
theorem isMeet_append (common : List (String × Schema))
    (h : IsMeet (.fields fs) (.fields gs) (.fields ms)) :
    IsMeet (.fields (common ++ fs)) (.fields (common ++ gs)) (.fields (common ++ ms)) := by
  induction common with
  | nil => exact h
  | cons field common ih => exact isMeet_cons field.1 (isMeet_self field.2) ih

section Names

variable {A B C E F G : List String}

/-- Sections of names have in common the section of the common names. -/
theorem isMeet_forNames (h : IsMeet s t u) (hnames : ∀ name, name ∈ C ↔ name ∈ A ∧ name ∈ B) :
    IsMeet (forNames A s) (forNames B t) (forNames C u) := by
  refine .fields (fun name => ?_) fun name s' t' u' hs' ht' hu' => ?_
  · rw [field?_forNames rfl, field?_forNames rfl, field?_forNames rfl]
    by_cases hA : name ∈ A <;> by_cases hB : name ∈ B <;> simp [hA, hB, hnames]
  · rw [field?_forNames rfl] at hs' ht' hu'
    cases (Option.ite_none_right_eq_some.mp hs').2
    cases (Option.ite_none_right_eq_some.mp ht').2
    cases (Option.ite_none_right_eq_some.mp hu').2
    exact h

theorem isMeet_elementStyles (helements : ∀ name, name ∈ G ↔ name ∈ E ∧ name ∈ F) :
    IsMeet (elementStyles E) (elementStyles F) (elementStyles G) :=
  isMeet_forNames (isMeet_self _) helements

theorem isMeet_blockStyles (helements : ∀ name, name ∈ G ↔ name ∈ E ∧ name ∈ F) :
    IsMeet (blockStyles E) (blockStyles F) (blockStyles G) :=
  isMeet_append _ (isMeet_cons _ (isMeet_elementStyles helements) isMeet_nil)

theorem isMeet_settingsSection (hblocks : ∀ name, name ∈ C ↔ name ∈ A ∧ name ∈ B) :
    IsMeet (.fields (settingsSection A)) (.fields (settingsSection B))
      (.fields (settingsSection C)) :=
  isMeet_append _ (isMeet_cons _ (isMeet_forNames (isMeet_self _) hblocks) isMeet_nil)

theorem isMeet_stylesSection (hblocks : ∀ name, name ∈ C ↔ name ∈ A ∧ name ∈ B)
    (helements : ∀ name, name ∈ G ↔ name ∈ E ∧ name ∈ F) :
    IsMeet (.fields (stylesSection A E)) (.fields (stylesSection B F))
      (.fields (stylesSection C G)) :=
  isMeet_append _ (isMeet_cons _ (isMeet_forNames (isMeet_blockStyles helements) hblocks)
    (isMeet_cons _ (isMeet_elementStyles helements) isMeet_nil))

/-- **The schemas of theme trees** for two choices of names have in common the schema for the common
names. -/
theorem isMeet_wholeTheme (hblocks : ∀ name, name ∈ C ↔ name ∈ A ∧ name ∈ B)
    (helements : ∀ name, name ∈ G ↔ name ∈ E ∧ name ∈ F) :
    IsMeet (.fields (wholeTheme A E)) (.fields (wholeTheme B F)) (.fields (wholeTheme C G)) :=
  isMeet_append _ (isMeet_cons _ (isMeet_stylesSection hblocks helements)
    (isMeet_cons _ (isMeet_settingsSection hblocks) isMeet_nil))

end Names

end Schema

/-! ### Theme trees -/

section Sanitize

variable {A B C E F G : List String}

/-- A theme tree pruned for two choices of names is pruned for any choice of the common names. -/
theorem sanitize_sanitize (hblocks : ∀ name, name ∈ C ↔ name ∈ A ∧ name ∈ B)
    (helements : ∀ name, name ∈ G ↔ name ∈ E ∧ name ∈ F) (tree : Value) :
    sanitize B F (.map (sanitize A E tree)) = sanitize C G tree := by
  have hmeet := Schema.isMeet_wholeTheme hblocks helements
  simp only [sanitize, Schema.prune_map]
  cases tree with
  | map es mark =>
    rw [Schema.prune_map, Schema.prune_map]
    exact Schema.pruneEntries_pruneEntries hmeet es
  | _ =>
    rw [Schema.prune_of_not_map rfl, Schema.prune_of_not_map rfl]
    exact Schema.pruneEntries_pruneEntries hmeet []

/-- What is left of a theme tree depends on which names are known, and on nothing else about the
names. -/
theorem sanitize_congr (hblocks : ∀ name, name ∈ B ↔ name ∈ A)
    (helements : ∀ name, name ∈ F ↔ name ∈ E) (tree : Value) :
    sanitize B F tree = sanitize A E tree := by
  have hB : sanitize B F (.map (sanitize A E tree)) = sanitize B F tree :=
    sanitize_sanitize (fun name => by simp [hblocks]) (fun name => by simp [helements]) tree
  have hA : sanitize B F (.map (sanitize A E tree)) = sanitize A E tree :=
    sanitize_sanitize (fun name => by simp [hblocks]) (fun name => by simp [helements]) tree
  rw [← hB, hA]

/-- **Pruning a theme tree twice is pruning it once for the common names.** So pruning again changes
nothing, and neither the order of the names nor how often each is given matters. -/
theorem sanitize_twice (A B E F : List String) (tree : Value) :
    sanitize B F (.map (sanitize A E tree)) =
        sanitize (A.filter (· ∈ B)) (E.filter (· ∈ F)) tree ∧
      sanitize A E (.map (sanitize A E tree)) = sanitize A E tree ∧
      ∀ A' E', (∀ name, name ∈ A' ↔ name ∈ A) → (∀ name, name ∈ E' ↔ name ∈ E) →
        sanitize A' E' tree = sanitize A E tree := by
  refine ⟨?_, ?_, fun A' E' hblocks helements => sanitize_congr hblocks helements tree⟩
  · exact sanitize_sanitize (by simp) (by simp) tree
  · exact sanitize_sanitize (by simp) (by simp) tree

/-- Known twice and in another order, two blocks are left as they are when known once. -/
theorem sanitize_twice_repeated :
    let tree := Value.map [(.text "settings", .map [(.text "blocks",
      .map [(.text "core/group", .map [(.text "custom", .int 1)]), (.text "core/table", .null)])])]
    sanitize ["core/group"] [] (.map (sanitize ["core/code", "core/group"] ["link"] tree)) =
        sanitize ["core/group"] [] tree ∧
      sanitize ["core/group", "core/code", "core/group"] ["link", "link"] tree =
        sanitize ["core/code", "core/group"] ["link"] tree := by
  intro tree
  have htwice := sanitize_twice ["core/code", "core/group"] ["core/group"] ["link"] [] tree
  exact ⟨htwice.1, htwice.2.2 _ _ (fun name => by grind) (fun name => by simp)⟩

end Sanitize

end ThemeSheet
