import ThemeSheet.Proofs.Css.Integers
import ThemeSheet.Proofs.Json.Content
import ThemeSheet.Proofs.Theme.Refusals
import ThemeSheet.Proofs.Theme.Runs
import ThemeSheet.Proofs.Theme.Writes
import ThemeSheet.Theme.Cleaning
import ThemeSheet.Theme.SharedMerge

/-!
# Which trees are compiled

Themes are made of trees as JSON has them, such as are read from JSON files, and merged; making them
and merging them cannot fail, and neither can reading the templates that they declare. Compiling
them or cleaning such a tree may be refused, but only for digits that stand in one of the trees, too
many of them in a row: those of an integer that cannot be written, of a color channel that cannot be
divided, or of a numeral that cannot be read. So if there are no such digits, everything is compiled
and cleaned.

## Main definitions

* `Refusal.HasCause`, the digits that a refusal comes from.

## Main results

* `failsOnly_clean`: cleaning is refused where a check is;
* `hasContent_of_mem_run`: what stands in the themes of a run;
* `compiled_or_caused`: compiling and cleaning give a result, or there is a cause.
-/

namespace ThemeSheet

open Result (FailsOnly Meets failsOnly_foldlM failsOnly_ok meets_error meets_ok)

variable {allowed : Refusal → Prop} {texts : TextClass} {check : SafetyCheck}

/-! ### Cleaning -/

theorem Theme.failsOnly_keepScope {c : Content} {clean : Value → Except Refusal Entries}
    {tree : Value} (htree : tree.HasContent c)
    (hclean : ∀ part, part.HasContent c → FailsOnly allowed (clean part)) (kept : Entries)
    (scope : Scope) : FailsOnly allowed (keepScope clean tree kept scope) := by
  have hpart : (tree.getD scope.path .emptyMap).HasContent c :=
    hasContent_getD (fun _ => htree.at?) hasContent_emptyMap
  unfold keepScope
  dsimp only
  split
  · exact (hclean _ hpart).bind fun _ => failsOnly_ok _
  · exact failsOnly_ok kept

section Cleaning

variable (hcheck : ∀ property v, v.HasContent (.spelled allowed texts) →
  FailsOnly allowed (check property v))
include hcheck

theorem failsOnly_passesAll {v : Value} (hv : v.HasContent (.spelled allowed texts))
    (targets : List String) : FailsOnly allowed (passesAll check v targets) := by
  induction targets with
  | nil => exact failsOnly_ok true
  | cons property rest ih =>
    rw [passesAll]
    refine (hcheck property v hv).bind fun passed => ?_
    split
    · exact ih
    · exact failsOnly_ok false

namespace Theme

theorem failsOnly_isSafeItem (category : Category) {item : Value}
    (h : item.HasContent (.spelled allowed texts)) :
    FailsOnly allowed (isSafeItem check category item) := by
  cases item with
  | map preset mark =>
    have hpreset := (Value.hasContent_map.mp h).2
    refine (meets_value category hpreset).bind fun v hv => ?_
    unfold isSafePreset
    split
    · exact failsOnly_passesAll hcheck hv _
    · exact failsOnly_ok false
  | _ => exact failsOnly_ok false

theorem failsOnly_cleanStyles {styles : Value} (h : styles.HasContent (.spelled allowed texts)) :
    FailsOnly allowed (cleanStyles check styles) := by
  refine (meets_styleDeclarations h .null).bind fun declarations hdeclarations => ?_
  refine FailsOnly.bind ?_ fun _ => failsOnly_ok _
  exact Result.failsOnly_keeping (passing check) rfl (fun _ _ => rfl) fun d hd =>
    hcheck d.name (.text d.value) (hdeclarations d hd)

theorem failsOnly_cleanSettings {settings : Value}
    (h : settings.HasContent (.spelled allowed texts)) :
    FailsOnly allowed (cleanSettings check settings) := by
  refine failsOnly_foldlM (fun kept category _ => ?_) []
  refine failsOnly_foldlM (fun kept path _ => ?_) kept
  unfold keepList
  split
  next items mark hitems =>
    refine FailsOnly.bind ?_ fun _ => failsOnly_ok _
    have hcontent := (Value.hasContent_list.mp (h.at? hitems)).2
    exact Result.failsOnly_keeping (safeItems check category) rfl (fun _ _ => rfl)
      fun item hitem => failsOnly_isSafeItem hcheck category (hcontent item hitem)
  next => exact failsOnly_ok kept

/-- **Cleaning is refused only where a check is**, or a spelling before it. -/
theorem failsOnly_clean (table : BlockTable) {raw : Value}
    (h : raw.HasContent (.spelled allowed texts)) : FailsOnly allowed (clean table check raw) := by
  have htree := Value.hasContent_map.mpr ⟨rfl, haveContent_sanitize table.names h⟩
  have hstyles := failsOnly_keepScope htree fun _ => failsOnly_cleanStyles hcheck
  have hsettings := failsOnly_keepScope htree fun _ => failsOnly_cleanSettings hcheck
  exact (failsOnly_foldlM (fun kept scope _ => hstyles kept scope) []).bind fun styles =>
    (failsOnly_foldlM (fun kept scope _ => hsettings kept scope) styles).bind
      fun _ => failsOnly_ok _

end Theme

end Cleaning

/-- A declaration is judged but for allowed reasons, if its value is spelled and can be judged. -/
theorem Css.failsOnly_isSafeDeclaration (property : String) {v : Value}
    (h : v.HasContent (.spelled allowed (.judged allowed))) :
    FailsOnly allowed (isSafeDeclaration property v) := by
  unfold isSafeDeclaration
  split
  · exact h.spelling.bind fun _ hjudged => IsJudged.failsOnly_isSafeText hjudged property
  · exact failsOnly_ok false

/-! ### Digits -/

/-- The digits that a refusal comes from stand in a value: those of an integer, those of a text that
names a color, or those of a text or a name of which a value is made that is judged. -/
def Refusal.HasCause (v : Value) : Refusal → Prop
  | .integerTooLong =>
    ∃ n : Int, 10 ^ Decimal.integerDigitLimit ≤ n.natAbs ∧ (Value.int n).OccursIn v
  | .channelTooLarge =>
    ∃ s, Css.HasRun Css.channelDigitLimit s.toList ∧ (Value.text s).OccursIn v
  | .numeralTooLong _ =>
    ∃ s, Css.HasLongRun (Css.unbroken s.toList) ∧
      ((Value.text s).OccursIn v ∨ (Key.text s).OccursIn v)
  | _ => False

section Causes

variable {v : Value}

/-- A tree as JSON has it is spelled, but for its long integers. -/
theorem hasContent_spelled_of_json (h : v.HasContent .json)
    (hinteger : Refusal.integerTooLong.HasCause v → allowed .integerTooLong)
    (hkey : ∀ s, (Key.text s).OccursIn v → texts.mem s.toList)
    (htext : ∀ s, (Value.text s).OccursIn v → texts.mem s.toList) :
    v.HasContent (.spelled allowed texts) := by
  refine h.of_occurs (fun k hk hocc => ?_) fun w hw hocc => ?_
  · cases k with
    | text s => exact hkey s hocc
    | _ => exact hk.elim
  · cases w with
    | text s => exact htext s hocc
    | int n =>
      show FailsOnly allowed (integerSpelling n)
      exact failsOnly_integerSpelling_of_long fun hlong => hinteger ⟨n, hlong, hocc⟩
    | float x => exact hw
    | moment m => exact hw.elim
    | _ => exact True.intro

/-- A run of digits stays when line breaks and tabs are left out. -/
theorem Css.HasLongRun.unbroken {cs : List Char} (h : HasLongRun cs) :
    HasLongRun (Css.unbroken cs) := by
  obtain ⟨run, hrun, hdigits, hlong⟩ := h
  have hkept : Css.unbroken run = run := by
    refine List.filter_eq_self.mpr fun d hd => decide_eq_true ?_
    refine ⟨?_, ?_, ?_⟩ <;>
    · rintro rfl
      cases hdigits _ hd
  refine ⟨run, ?_, hdigits, hlong⟩
  rw [← hkept]
  exact hrun.filter _

/-- The colors of a tree are read, but for long runs of digits. -/
theorem hasContent_colored_of_json (h : v.HasContent .json)
    (hcause : ∀ e : Refusal, e.HasCause v → allowed e) : v.HasContent (.colored allowed) := by
  refine h.of_occurs (fun _ _ _ => True.intro) fun w _ hocc => ?_
  cases w with
  | text s =>
    exact Css.failsOnly_parseColor (fun hlong _ => hcause _ ⟨s, hlong.unbroken, .inl hocc⟩)
      fun hrun => hcause _ ⟨s, hrun, hocc⟩
  | _ => exact True.intro

end Causes

namespace Theme

/-! ### Runs -/

/-- **What stands in the themes of a run** stands in the trees of which they are made. -/
theorem hasContent_of_mem_run {c : Content} (hc : c.TakesNames) {blocks : List String}
    {steps : List Step}
    (h : ∀ origin (raw : Tree), .construct origin raw ∈ steps → raw.1.HasContent c) :
    ∀ theme ∈ run blocks steps, theme.tree.HasContent c :=
  forall_run (motive := fun theme => theme.tree.HasContent c)
    (fun origin raw hstep => hasContent_compileTree hc blocks (h origin raw hstep) _)
    fun _ _ hbase hincoming => hasContent_mergeTrees hc hbase hincoming

/-- Themes of trees are merged as trees are. -/
theorem mergeShared_eq_merge {theme incoming : Theme} (h : theme.tree.IsTree)
    (hincoming : incoming.tree.IsTree) :
    theme.mergeShared incoming = .ok (theme.merge incoming) := by
  rw [mergeShared, h.isShared, hincoming.isShared]
  rfl

/-- The digits that a refusal comes from stand in a tree of which a theme is made. -/
def IsCaused (steps : List Step) (e : Refusal) : Prop :=
  ∃ origin raw, .construct origin raw ∈ steps ∧ e.HasCause raw.1

section Returning

variable {blocks : List String} {steps : List Step} {theme : Theme}

theorem isTree_of_mem_run (h : theme ∈ run blocks steps) : theme.tree.IsTree :=
  (hasContent_of_mem_run Content.takesNames_any (fun _ raw _ => raw.2.content) theme h).isTree

theorem hasContent_spelled_of_mem_run
    (hjson : ∀ origin raw, .construct origin raw ∈ steps → raw.1.HasContent .json)
    (hinteger : IsCaused steps .integerTooLong → allowed .integerTooLong)
    (h : theme ∈ run blocks steps) : theme.tree.HasContent (.spelled allowed .any) := by
  refine hasContent_of_mem_run (fun _ => True.intro) (fun origin raw hstep => ?_) theme h
  exact hasContent_spelled_of_json (hjson origin raw hstep)
    (fun hcause => hinteger ⟨origin, raw, hstep, hcause⟩) (fun _ _ => True.intro)
    fun _ _ => True.intro

theorem stylesheet_or_caused
    (hjson : ∀ origin raw, .construct origin raw ∈ steps → raw.1.HasContent .json)
    (h : theme ∈ run blocks steps) (table : BlockTable) (sections : List StyleSection)
    (origins : List String) :
    (∃ css, theme.stylesheet table sections origins = .ok css) ∨
      theme.stylesheet table sections origins = .error .integerTooLong ∧
        IsCaused steps .integerTooLong := by
  have hspelled : theme.tree.HasContent
      (.spelled (fun e => e = .integerTooLong ∧ IsCaused steps .integerTooLong) .any) :=
    hasContent_spelled_of_mem_run hjson (fun hcause => ⟨rfl, hcause⟩) h
  refine (failsOnly_stylesheet hspelled table sections origins).cases.imp_right ?_
  rintro ⟨e, he, rfl, hcause⟩
  exact ⟨he, hcause⟩

theorem filters_or_caused
    (hjson : ∀ origin raw, .construct origin raw ∈ steps → raw.1.HasContent .json)
    (h : theme ∈ run blocks steps) (table : BlockTable) (origins : List String) :
    (∃ svg, theme.filters table origins = .ok svg) ∨
      ∃ e, theme.filters table origins = .error e ∧ IsCaused steps e := by
  have hcolored : theme.tree.HasContent (.colored (IsCaused steps)) := by
    refine hasContent_of_mem_run (fun _ => True.intro) (fun origin raw hstep => ?_) theme h
    exact hasContent_colored_of_json (hjson origin raw hstep)
      fun e hcause => ⟨origin, raw, hstep, hcause⟩
  exact (failsOnly_filters (hasContent_spelled_of_mem_run hjson id h) hcolored table origins).cases

/-- A color is not read in cleaning, so no channel is too large. -/
theorem clean_or_caused (table : BlockTable) {raw : Value} (h : raw.HasContent .json) :
    (∃ cleaned, clean table Css.isSafeDeclaration raw = .ok cleaned) ∨
      ∃ e, clean table Css.isSafeDeclaration raw = .error e ∧ e ≠ .channelTooLarge ∧
        e.HasCause raw := by
  have hcontent : raw.HasContent (.spelled (fun e => e ≠ .channelTooLarge ∧ e.HasCause raw)
      (.judged fun e => e ≠ .channelTooLarge ∧ e.HasCause raw)) := by
    refine hasContent_spelled_of_json h (fun hcause => ⟨by simp, hcause⟩) (fun s hs => ?_)
      fun s hs => ?_
    · exact .inr fun hlong _ => ⟨by simp, s, hlong, .inr hs⟩
    · exact .inr fun hlong _ => ⟨by simp, s, hlong, .inl hs⟩
  exact (failsOnly_clean (fun property _ => Css.failsOnly_isSafeDeclaration property) table
    hcontent).cases

end Returning

/-- **Compiling and cleaning give a result, unless there are too many digits.** Of trees as JSON has
them themes are made and merged. Every theme is compiled to a stylesheet, unless an integer of a
tree is too long to be written, and to filters, unless digits of a tree stop it; and every such tree
is cleaned, unless digits of it do. -/
theorem compiled_or_caused (blocks : List String) {steps : List Step}
    (hjson : ∀ origin raw, .construct origin raw ∈ steps → raw.1.HasContent .json)
    (table : BlockTable) (sections : List StyleSection) (origins : List String) :
    (∀ theme ∈ run blocks steps,
      (∀ incoming ∈ run blocks steps,
        theme.mergeShared incoming = .ok (theme.merge incoming)) ∧
      ((∃ css, theme.stylesheet table sections origins = .ok css) ∨
        theme.stylesheet table sections origins = .error .integerTooLong ∧
          IsCaused steps .integerTooLong) ∧
      ((∃ svg, theme.filters table origins = .ok svg) ∨
        ∃ e, theme.filters table origins = .error e ∧ IsCaused steps e)) ∧
    ∀ raw : Tree, raw.1.HasContent .json →
      (∃ cleaned, clean table Css.isSafeDeclaration raw = .ok cleaned) ∨
        ∃ e, clean table Css.isSafeDeclaration raw = .error e ∧ e ≠ .channelTooLarge ∧
          e.HasCause raw.1 := by
  refine ⟨fun theme htheme => ⟨fun incoming hincoming => ?_, ?_, ?_⟩, fun raw hraw => ?_⟩
  · exact mergeShared_eq_merge (isTree_of_mem_run htheme) (isTree_of_mem_run hincoming)
  · exact stylesheet_or_caused hjson htheme table sections origins
  · exact filters_or_caused hjson htheme table origins
  · exact clean_or_caused table hraw

/-- A run in which a theme with a filter and a negative number is merged with one that has lists and
names of digits in its custom settings; its first theme is compiled, and the second tree cleaned. -/
theorem compiled_or_caused_of_two_themes :
    let base : Tree := ⟨.map [(.text "settings", .map [(.text "color", .map [
      (.text "duotone", .list [.map [(.text "slug", .int (-7)),
        (.text "colors", .list [.text "rgb(999,0,0)", .null])]])])])], by decide⟩
    let other : Tree := ⟨.map [(.text "settings", .map [(.text "custom", .map [
      (.text "2024", .list [.bool true, .text "12\n34", .map []])])]),
      (.text "styles", .map [(.text "color", .map [(.text "text", .text "var:preset|color|a;")])])],
      by decide⟩
    let steps := [.construct "default" base, .construct "nobody" other, .merge 0 1]
    (∀ origin raw, .construct origin raw ∈ steps → raw.1.HasContent .json) ∧
      (∃ theme ∈ run [] steps, theme.origin = .default ∧
        ((∃ css, theme.stylesheet [] StyleSection.all Origin.allNames = .ok css) ∨
          theme.stylesheet [] StyleSection.all Origin.allNames = .error .integerTooLong ∧
            IsCaused steps .integerTooLong) ∧
        ((∃ svg, theme.filters [] Origin.allNames = .ok svg) ∨
          ∃ e, theme.filters [] Origin.allNames = .error e ∧ IsCaused steps e)) ∧
      ((∃ cleaned, clean [] Css.isSafeDeclaration other = .ok cleaned) ∨
        ∃ e, clean [] Css.isSafeDeclaration other = .error e ∧ e ≠ .channelTooLarge ∧
          e.HasCause other.1) := by
  intro base other steps
  have hbase : base.1.HasContent .json := by
    simp [base, Value.HasContent, Value.EntriesHaveContent, Value.ItemsHaveContent, Content.json,
      Entries.Distinct]
  have hother : other.1.HasContent .json := by
    simp [other, Value.HasContent, Value.EntriesHaveContent, Value.ItemsHaveContent, Content.json,
      Entries.Distinct, Key.agrees, Key.identity]
  have hjson : ∀ origin raw, .construct origin raw ∈ steps → raw.1.HasContent .json := by
    intro origin raw hstep
    rcases List.mem_cons.mp hstep with heq | hstep
    · cases heq
      exact hbase
    rcases List.mem_cons.mp hstep with heq | hstep
    · cases heq
      exact hother
    · cases List.mem_singleton.mp hstep
  obtain ⟨hrun, hclean⟩ := compiled_or_caused [] hjson [] StyleSection.all Origin.allNames
  have hmem : (run [] steps).head (by decide) ∈ run [] steps := List.head_mem _
  exact ⟨hjson, ⟨_, hmem, rfl, (hrun _ hmem).2⟩, hclean other hother⟩

/-- The filter of a preset whose color has a channel of 311 digits is refused, and the stylesheet of
a preset whose slug is an integer of 4301 digits. Both stand in a tree as JSON has it. -/
theorem refused_for_digits :
    let color := "rgb(" ++ String.ofList (List.replicate 311 '9') ++ ",0,0)"
    let colored : Tree := ⟨.map [(.text "settings", .map [(.text "color", .map [
      (.text "duotone", .list [.map [(.text "slug", .text "a"),
        (.text "colors", .list [.text color])]])])])], by decide⟩
    let numbered : Tree := ⟨.map [(.text "settings", .map [(.text "color", .map [
      (.text "palette", .list [.map [(.text "slug", .int (10 ^ 4300 : Nat)),
        (.text "color", .text "red")]])])])], by decide⟩
    (colored.1.HasContent .json ∧
      (construct [] "theme" colored).filters [] Origin.allNames = .error .channelTooLarge) ∧
    (numbered.1.HasContent .json ∧
      (construct [] "theme" numbered).stylesheet [] StyleSection.all Origin.allNames =
        .error .integerTooLong) := by
  intro color colored numbered
  refine ⟨⟨?_, ?_⟩, ?_, ?_⟩
  · simp [colored, Value.HasContent, Value.EntriesHaveContent, Value.ItemsHaveContent,
      Content.json, Entries.Distinct]
  · decide +kernel
  · change Value.HasContent .json (.map _)
    -- The integer is put aside, lest it be computed.
    generalize ((10 ^ 4300 : Nat) : Int) = n
    simp [Value.HasContent, Value.EntriesHaveContent, Value.ItemsHaveContent, Content.json,
      Entries.Distinct]
  · decide +kernel

end Theme

end ThemeSheet
