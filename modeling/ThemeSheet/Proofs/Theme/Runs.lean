import ThemeSheet.Proofs.Theme.Merging

/-!
# Runs of constructing and merging

A program that works with themes constructs some from trees that it has read, and merges them into
one another. It does so in any order and as often as it likes; a theme may be merged into itself,
and into several others, and themes that have been merged into may be merged further. Whatever has
been done, every theme is compiled, so that compiling its tree once more, with whatever origin,
changes nothing: neither an entry nor the order of the entries.

The names of the blocks stay the same during a run.

## Main definitions

* `Theme.construct`, `Theme.Step`, `Theme.run`.

## Main results

* `Theme.step_merge_of_some`, `step_merge_of_none`: a step of merging;
* `Theme.forall_step`, `Theme.forall_run`: what one step keeps, and what a run keeps;
* `Theme.compileTree_eq_of_mem_run`: the trees of a run are fixed points of compiling.
-/

namespace ThemeSheet.Theme

/-- The theme of a raw value, with the name of an origin. A name of no origin counts as that of the
theme. -/
def construct (blocks : List String) (origin : String) (raw : Value) : Theme :=
  compile blocks ((Origin.ofName? origin).getD .theme) raw

/-- What can be done with the themes that there are. -/
inductive Step where
  /-- Constructs one more theme from a tree. -/
  | construct (origin : String) (raw : Tree)
  /-- Merges the theme at one place into that at another. -/
  | merge (into source : Nat)

/-- The themes after a step. A step that asks for a theme which is not there does nothing. -/
def step (blocks : List String) (themes : List Theme) : Step → List Theme
  | .construct origin raw => themes ++ [construct blocks origin raw]
  | .merge into source =>
    match themes[into]?, themes[source]? with
    | some theme, some incoming => themes.set into (theme.merge incoming)
    | _, _ => themes

/-- The themes after some steps, from none at the beginning. -/
def run (blocks : List String) (steps : List Step) : List Theme := steps.foldl (step blocks) []

variable {blocks : List String} {motive : Theme → Prop}

theorem run_append (steps more : List Step) :
    run blocks (steps ++ more) = more.foldl (step blocks) (run blocks steps) :=
  List.foldl_append

theorem step_merge_of_none {themes : List Theme} {into source : Nat}
    (h : themes[into]? = none ∨ themes[source]? = none) :
    step blocks themes (.merge into source) = themes := by
  unfold step
  dsimp only
  split
  next hinto hsource =>
    rcases h with h | h
    · cases hinto.symm.trans h
    · cases hsource.symm.trans h
  next => rfl

theorem step_merge_of_some {themes : List Theme} {into source : Nat} {theme incoming : Theme}
    (hinto : themes[into]? = some theme) (hsource : themes[source]? = some incoming) :
    step blocks themes (.merge into source) = themes.set into (theme.merge incoming) := by
  unfold step
  dsimp only
  rw [hinto, hsource]

/-- What constructing establishes and merging keeps, a step keeps. -/
theorem forall_step {s : Step} (hconstruct : ∀ origin (raw : Tree), s = .construct origin raw →
      motive (construct blocks origin raw))
    (hmerge : ∀ theme incoming, motive theme → motive incoming → motive (theme.merge incoming))
    {themes : List Theme} (h : ∀ theme ∈ themes, motive theme) :
    ∀ theme ∈ step blocks themes s, motive theme := by
  intro theme htheme
  cases s with
  | construct origin raw =>
    rcases List.mem_append.mp htheme with htheme | htheme
    · exact h theme htheme
    · rw [List.mem_singleton.mp htheme]
      exact hconstruct origin raw rfl
  | merge into source =>
    unfold step at htheme
    dsimp only at htheme
    split at htheme
    next old incoming hold hincoming =>
      rcases List.mem_or_eq_of_mem_set htheme with htheme | rfl
      · exact h theme htheme
      · exact hmerge _ _ (h _ (List.mem_of_getElem? hold)) (h _ (List.mem_of_getElem? hincoming))
    next => exact h theme htheme

/-- What constructing establishes and merging keeps, every theme of a run has. -/
theorem forall_run {steps : List Step} (hconstruct : ∀ origin (raw : Tree),
      .construct origin raw ∈ steps → motive (construct blocks origin raw))
    (hmerge : ∀ theme incoming, motive theme → motive incoming → motive (theme.merge incoming)) :
    ∀ theme ∈ run blocks steps, motive theme := by
  refine List.foldlRecOn (motive := fun themes => ∀ theme ∈ themes, motive theme) steps _ ?_ ?_
  · intro theme htheme
    cases htheme
  · intro themes h s hs
    exact forall_step (fun origin raw heq => hconstruct origin raw (heq ▸ hs)) hmerge h

/-- Every theme of a run has a compiled tree. -/
theorem exists_isCompiled_of_mem_run {steps : List Step} {theme : Theme}
    (h : theme ∈ run blocks steps) : ∃ es, theme.tree = .map es ∧ IsCompiled blocks es := by
  refine forall_run (motive := fun theme => ∃ es, theme.tree = .map es ∧ IsCompiled blocks es)
    (fun origin raw _ => isCompiled_compileTree _ raw.2 _) ?_ theme h
  rintro ⟨origin, _⟩ ⟨other, _⟩ ⟨es, rfl, hes⟩ ⟨fs, rfl, hfs⟩
  exact hes.mergeTrees hfs

/-- **The trees of a run are fixed points of compiling.** Compiling the tree of any theme of a run,
with any origin, gives that very tree. It fits the schema, has no flag of the appearance tools, and
what stands where a collection does is keyed. -/
theorem compileTree_eq_of_mem_run {steps : List Step} {theme : Theme}
    (h : theme ∈ run blocks steps) :
    (∀ origin, (construct blocks origin theme.tree).tree = theme.tree) ∧
      ∃ es, theme.tree = .map es ∧ IsCompiled blocks es := by
  obtain ⟨es, heq, hes⟩ := exists_isCompiled_of_mem_run h
  refine ⟨fun origin => ?_, es, heq, hes⟩
  rw [heq]
  exact hes.compileTree_eq _

/-- A run in which a theme with a block is merged into one of the first version whose appearance
tools are on, and the result into itself. -/
theorem compileTree_eq_of_run_of_two_themes :
    let base : Tree := ⟨.map [(.text "version", .int 1), (.text "settings", .map [
      (.text "appearanceTools", .bool true),
      (.text "color", .map [(.text "palette", .list [.map [(.text "slug", .text "red")]])])])],
      by decide⟩
    let other : Tree := ⟨.map [(.text "settings", .map [(.text "blocks", .map [
      (.text "core/quote", .map [(.text "color", .map [(.text "palette", .list [])])])])])],
      by decide⟩
    let themes := run ["core/quote"]
      [.construct "default" base, .construct "nobody" other, .merge 0 1, .merge 0 0]
    ∃ theme ∈ themes, theme.origin = .default ∧ ∀ origin,
      (construct ["core/quote"] origin theme.tree).tree = theme.tree := by
  intro base other themes
  have hmem : themes[0] ∈ themes := List.getElem_mem (by decide)
  exact ⟨themes[0], hmem, rfl, (compileTree_eq_of_mem_run hmem).1⟩

end ThemeSheet.Theme
