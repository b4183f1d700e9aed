import ThemeSheet.Proofs.Theme.Merging

/-!
# What merging takes over

Merging goes through the places of the tree that is merged in, and at each of them through the
categories and the origins. What it does to the collection of one category at one place is done when
that category is reached at that place, and at no other time: all other writes diverge from it. What
it does then depends on the tree as it stands at that moment, but only on parts of it that nothing
has been written to before. So the collection can be told from the overlay alone.

## Main definitions

* `Theme.AgreesFor`, of trees that are the same for a category at a place;
* `Theme.defaultItems`, the default presets of a category at a place;
* `Theme.takenSlugs`, the slugs of the default presets that count at a place.

## Main results

* `Theme.mergedCollection_congr`: on what the outcome for a collection depends;
* `Theme.AgreesFor.mergedCollection_eq`: trees that are the same for a category treat it alike;
* `Theme.at?_mergeTrees`: the collection of a category in a merged tree.
-/

namespace ThemeSheet

/-- Going through a list without repetitions, one element of which is the one that counts. What
leads up to it is kept by the other elements, and so is what comes out of it. -/
theorem foldl_once {τ α : Type} {f : τ → α → τ} {R S : τ → Prop} {l : List α} {a : α}
    (hnodup : l.Nodup) (ha : a ∈ l) (hbefore : ∀ t, ∀ b ∈ l, b ≠ a → R t → R (f t b))
    (hafter : ∀ t, ∀ b ∈ l, b ≠ a → S t → S (f t b)) (hstep : ∀ t, R t → S (f t a)) {t : τ}
    (h : R t) : S (l.foldl f t) := by
  induction l generalizing t with
  | nil => cases ha
  | cons b l ih =>
    obtain ⟨hb, hnodup⟩ := List.nodup_cons.mp hnodup
    rw [List.foldl_cons]
    by_cases hba : b = a
    · subst hba
      refine List.foldlRecOn l f (hstep t h) fun t ht c hc => ?_
      have hcb : c ≠ b := by
        rintro rfl
        exact hb hc
      exact hafter t c (List.mem_cons_of_mem b hc) hcb ht
    · have hal : a ∈ l := (List.mem_cons.mp ha).resolve_left fun h => hba h.symm
      exact ih hnodup hal (fun t c hc => hbefore t c (List.mem_cons_of_mem b hc))
        (fun t c hc => hafter t c (List.mem_cons_of_mem b hc))
        (hbefore t b List.mem_cons_self hba h)

namespace Theme

open ThemeSheet.Path (Diverges)
open Schema (Fits)
open Value (walk?)

variable {blocks elements : List String} {place : Path} {category : Category} {tree tree' : Value}

/-! ### Trees that are the same for a category -/

/-- The first tree has what the second one has at the collection of a category and wherever merging
does not write. -/
structure AgreesFor (blocks : List String) (place : Path) (category : Category)
    (tree tree' : Value) : Prop where
  isMap : ∃ es, tree = .map es
  collection : ∀ q, tree.at? (place ++ category.path ++ q) = tree'.at? (place ++ category.path ++ q)
  rest : ∀ q, (∀ p, TakenPath blocks p → Diverges p q) → tree.at? q = tree'.at? q

theorem AgreesFor.refl (blocks : List String) (place : Path) (category : Category) (es : Entries) :
    AgreesFor blocks place category (.map es) (.map es) := ⟨⟨es, rfl⟩, fun _ => rfl, fun _ _ => rfl⟩

theorem AgreesFor.here (h : AgreesFor blocks place category tree tree') :
    tree.at? (place ++ category.path) = tree'.at? (place ++ category.path) := by
  have := h.collection []
  rwa [List.append_nil] at this

/-- A mapping that has what is given at the collection of a category. -/
def Has (place : Path) (category : Category) (o : Option Value) (tree : Value) : Prop :=
  (∃ es, tree = .map es) ∧ tree.at? (place ++ category.path) = o

/-- A change that makes no difference to a category leaves its collection. -/
theorem Has.of_agreesFor {o : Option Value} (h : Has place category o tree')
    (hagrees : AgreesFor blocks place category tree' tree' →
      AgreesFor blocks place category tree tree') :
    Has place category o tree := by
  obtain ⟨⟨es, rfl⟩, heq⟩ := h
  have h := hagrees (AgreesFor.refl blocks place category es)
  exact ⟨h.isMap, h.here.trans heq⟩

/-- Writing elsewhere makes no difference. -/
theorem AgreesFor.set (h : AgreesFor blocks place category tree tree') {p : Path}
    (hp : TakenPath blocks p) (hdiv : Diverges p (place ++ category.path)) (v : Value) :
    AgreesFor blocks place category (tree.set p v) tree' := by
  obtain ⟨es, rfl⟩ := h.isMap
  refine ⟨⟨_, rfl⟩, fun q => ?_, fun q hq => ?_⟩
  · have hbelow : Diverges p (place ++ category.path ++ q) := by
      have := hdiv.append [] q
      rwa [List.append_nil] at this
    rw [Value.at?_set_of_diverges hbelow, h.collection q]
  · rw [Value.at?_set_of_diverges (hq p hp), h.rest q hq]

/-- The paths of flags are off the ways of all that merging writes. -/
theorem TakenPath.diverges_override {p q : Path} (h : TakenPath blocks p)
    (hplace : SettingPlace blocks place) (hq : category.override = .unless q) :
    Diverges p (place ++ q) := by
  have hflag : q.isOwn = true ∧ Diverges ["spacing", "units"] q ∧
      ∀ other : Category, Diverges other.path q := by
    cases category <;> cases hq
    · exact ⟨rfl, by decide, fun other => by cases other <;> decide⟩
    · exact ⟨rfl, by decide, fun other => by cases other <;> decide⟩
  obtain ⟨hown, hunits, hcollections⟩ := hflag
  exact h.diverges_own hplace hown hunits hcollections

/-- Whether theme presets may take the place of default ones is decided by two flags. -/
theorem mayOverride_congr (h : ∀ path, category.override = .unless path →
      tree.at? (place ++ path) = tree'.at? (place ++ path) ∧
        tree.at? ("settings" :: path) = tree'.at? ("settings" :: path)) :
    mayOverride tree place category = mayOverride tree' place category := by
  unfold mayOverride
  cases hov : category.override with
  | always => rfl
  | «unless» path =>
    obtain ⟨hhere, hroot⟩ := h path hov
    simp only [Value.solid?_congr hhere, Value.solid?_congr hroot]

/-- The default presets of a category at a place. -/
def defaultItems (tree : Value) (place : Path) (category : Category) : List Value :=
  ((tree.at? (place ++ category.path ++ [Origin.default.name])).bind Value.items?).getD []

theorem defaultSlugs_eq (tree : Value) (place : Path) (category : Category) :
    defaultSlugs tree place category = (defaultItems tree place category).map itemSlug := by
  rw [defaultSlugs, defaultItems]
  cases tree.at? (place ++ category.path ++ [Origin.default.name]) with
  | none => rfl
  | some v => cases v <;> rfl

theorem defaultName?_eq (tree : Value) (place : Path) (category : Category) (slug : Value) :
    defaultName? tree (place ++ category.path) slug =
      ((defaultItems tree place category).find? fun item =>
        item.isMap && (itemSlug item).equals slug).bind fun item =>
          (item.entryNamed? "name").filter fun name => !name.isNull := by
  rw [defaultName?, defaultItems]
  cases tree.at? (place ++ category.path ++ [Origin.default.name]) with
  | none => rfl
  | some v =>
    cases v with
    | list items mark =>
      simp only [Option.bind_some, Value.items?, Option.getD_some]
      cases items.find? fun item => item.isMap && (itemSlug item).equals slug <;> rfl
    | _ => rfl

/-- The names that presets inherit are those of the default presets. -/
theorem withDefaultNames_congr
    (h : defaultItems tree place category = defaultItems tree' place category) :
    withDefaultNames tree (place ++ category.path) =
      withDefaultNames tree' (place ++ category.path) := by
  have hname : defaultName? tree (place ++ category.path) =
      defaultName? tree' (place ++ category.path) := by
    funext slug
    rw [defaultName?_eq, defaultName?_eq, h]
  funext content
  cases content with
  | list items mark =>
    have hitem : withDefaultName tree (place ++ category.path) =
        withDefaultName tree' (place ++ category.path) := by
      funext item
      unfold withDefaultName newName?
      rw [hname]
    rw [withDefaultNames, withDefaultNames, hitem]
  | _ => rfl

/-- What becomes of a collection depends on the flags and the default presets. -/
theorem mergedCollection_congr
    (hmay : mayOverride tree place category = mayOverride tree' place category)
    (hitems : defaultItems tree place category = defaultItems tree' place category)
    (slugs : List Value) (origin : Origin) (content : Value) :
    mergedCollection tree place slugs category origin content =
      mergedCollection tree' place slugs category origin content := by
  unfold mergedCollection
  rw [hmay, withDefaultNames_congr hitems]

theorem AgreesFor.mayOverride_eq (h : AgreesFor blocks place category tree tree')
    (hplace : SettingPlace blocks place) :
    mayOverride tree place category = mayOverride tree' place category :=
  mayOverride_congr fun path hov =>
    ⟨h.rest _ fun _ hp => hp.diverges_override hplace hov,
      h.rest ("settings" :: path) fun _ hp => hp.diverges_override .root hov⟩

theorem AgreesFor.defaultItems_eq (h : AgreesFor blocks place category tree tree') :
    defaultItems tree place category = defaultItems tree' place category := by
  rw [defaultItems, defaultItems, h.collection]

theorem AgreesFor.defaultSlugs_eq (h : AgreesFor blocks place category tree tree') :
    defaultSlugs tree place category = defaultSlugs tree' place category := by
  rw [Theme.defaultSlugs_eq, Theme.defaultSlugs_eq, h.defaultItems_eq]

/-- **Trees that are the same for a category treat its collections alike.** -/
theorem AgreesFor.mergedCollection_eq (h : AgreesFor blocks place category tree tree')
    (hplace : SettingPlace blocks place) (slugs : List Value) (origin : Origin) (content : Value) :
    mergedCollection tree place slugs category origin content =
      mergedCollection tree' place slugs category origin content :=
  mergedCollection_congr (h.mayOverride_eq hplace) h.defaultItems_eq slugs origin content

/-! ### Taking over elsewhere -/

variable {incoming : Value} {slugs : Category → List Value}

theorem AgreesFor.takeUnits (h : AgreesFor blocks place category tree tree')
    (hplace : SettingPlace blocks place) {other : Path} (hother : SettingPlace blocks other) :
    AgreesFor blocks place category (takeUnits incoming other tree) tree' := by
  refine takeUnits_induction (motive := fun tree => AgreesFor blocks place category tree tree') h
    fun units _ => h.set (.units hother) ?_ units
  refine hother.diverges hplace (by decide) category.isOwn_path fun _ => ?_
  cases category <;> decide

theorem AgreesFor.takeCategory (h : AgreesFor blocks place category tree tree') {other : Path}
    (hother : SettingPlace blocks other) {category' : Category}
    (hdiv : Diverges (other ++ category'.path) (place ++ category.path)) :
    AgreesFor blocks place category (takeCategory incoming other slugs tree category') tree' := by
  refine List.foldlRecOn (motive := fun tree => AgreesFor blocks place category tree tree')
    _ _ h fun tree h origin _ => ?_
  refine takeCollection_induction
    (motive := fun tree => AgreesFor blocks place category tree tree') h fun content _ => ?_
  rw [List.append_assoc]
  refine h.set (.collection hother category' origin) ?_ _
  have := hdiv.append [origin.name] []
  rwa [List.append_nil, List.append_assoc] at this

/-- What merging does at one place makes no difference at another. -/
theorem AgreesFor.takeScope (h : AgreesFor blocks place category tree tree')
    (hplace : SettingPlace blocks place) {other : Path} (hother : SettingPlace blocks other)
    (hne : other ≠ place) (rootSlugs : Category → List Value) :
    AgreesFor blocks place category (takeScope incoming rootSlugs tree other) tree' := by
  refine List.foldlRecOn (motive := fun tree => AgreesFor blocks place category tree tree')
    _ _ (h.takeUnits hplace hother) fun tree h category' _ => ?_
  refine h.takeCategory hother (hother.diverges hplace category'.isOwn_path category.isOwn_path ?_)
  exact fun heq => absurd heq hne

/-! ### Taking over a collection -/

theorem exists_map_takeCategory (es : Entries) :
    ∃ fs, takeCategory incoming place slugs (.map es) category = .map fs := by
  refine List.foldlRecOn (motive := fun tree => ∃ fs, tree = Value.map fs) _ _ ⟨es, rfl⟩ ?_
  rintro _ ⟨fs, rfl⟩ origin -
  exact takeCollection_induction (motive := fun tree => ∃ fs, tree = Value.map fs) ⟨fs, rfl⟩
    fun content _ => ⟨_, rfl⟩

theorem takeCollection_of_none {origin : Origin} {slugs : Category → List Value}
    (h : incoming.solid? (place ++ category.path ++ [origin.name]) = none) (tree : Value) :
    takeCollection incoming place slugs category tree origin = tree := by
  unfold takeCollection
  dsimp only
  rw [h]

/-- Where only one origin has a collection, only that one is taken over. -/
theorem takeCategory_of_single {origin : Origin}
    (h : ∀ other, other ≠ origin → incoming.solid? (place ++ category.path ++ [other.name]) = none)
    (slugs : Category → List Value) (tree : Value) :
    takeCategory incoming place slugs tree category =
      takeCollection incoming place slugs category tree origin := by
  rw [takeCategory, Origin.all, List.foldl_cons, List.foldl_cons, List.foldl_cons, List.foldl_nil]
  cases origin with
  | default =>
    rw [takeCollection_of_none (h .custom (by decide)),
      takeCollection_of_none (h .theme (by decide))]
  | theme =>
    rw [takeCollection_of_none (h .custom (by decide)),
      takeCollection_of_none (h .default (by decide))]
  | custom =>
    rw [takeCollection_of_none (h .theme (by decide)),
      takeCollection_of_none (h .default (by decide))]

/-- The slugs of the default presets of a category that count at a place: those of the root and
those of the place. -/
def takenSlugs (tree : Value) (place : Path) (category : Category) : List Value :=
  defaultSlugs tree ["settings"] category ++ defaultSlugs tree place category

/-- The collection of a category, given what stood there, after that of an origin is taken over. -/
def takenInto (tree : Value) (place : Path) (category : Category) (origin : Origin)
    (old content : Option Value) : Option Value :=
  match content with
  | none => old
  | some content => some ((Value.orEmptyMap old).onMap (Entries.insert (.text origin.name)
      (mergedCollection tree place (takenSlugs tree place category) category origin content)))

theorem at?_takeCategory {origin : Origin} (h : AgreesFor blocks place category tree tree')
    (hplace : SettingPlace blocks place)
    (hsingle : ∀ other, other ≠ origin →
      incoming.solid? (place ++ category.path ++ [other.name]) = none)
    (hslugs : slugs category = takenSlugs tree' place category) :
    (takeCategory incoming place slugs tree category).at? (place ++ category.path) =
      takenInto tree' place category origin (tree'.at? (place ++ category.path))
        (incoming.solid? (place ++ category.path ++ [origin.name])) := by
  rw [takeCategory_of_single hsingle]
  unfold takeCollection takenInto
  dsimp only
  cases incoming.solid? (place ++ category.path ++ [origin.name]) with
  | none => exact h.here
  | some content =>
    obtain ⟨es, rfl⟩ := h.isMap
    have hne : place ++ category.path ≠ [] := by simp [hplace.ne_nil]
    dsimp only
    rw [Value.at?_set_append hne (by simp), h.here, hslugs, h.mergedCollection_eq hplace]
    rfl

/-- What the place itself does to a collection, where the tree is still as the overlay was. -/
theorem has_takeScope {overlaid : Value} {origin : Origin}
    (h : AgreesFor blocks place category tree overlaid) (hplace : SettingPlace blocks place)
    (hsingle : ∀ other, other ≠ origin →
      incoming.solid? (place ++ category.path ++ [other.name]) = none) :
    Has place category (takenInto overlaid place category origin
        (overlaid.at? (place ++ category.path))
        (incoming.solid? (place ++ category.path ++ [origin.name])))
      (takeScope incoming (defaultSlugs overlaid ["settings"]) tree place) := by
  have hdiv : ∀ other : Category, other ≠ category →
      Diverges (place ++ other.path) (place ++ category.path) :=
    fun other hne => (Path.diverges_append_left place).mpr (Category.path_diverges hne)
  refine foldl_once (R := fun tree => AgreesFor blocks place category tree overlaid)
    (S := Has place category _) (l := Category.all) (a := category) (by decide)
    (by cases category <;> decide)
    (fun tree other _ hne h => h.takeCategory hplace (hdiv other hne))
    (fun tree other _ hne h => h.of_agreesFor fun hself =>
      hself.takeCategory hplace (hdiv other hne)) (fun tree' h' => ?_)
    (h.takeUnits hplace hplace)
  refine ⟨?_, at?_takeCategory h' hplace hsingle (by rw [takenSlugs, h.defaultSlugs_eq])⟩
  obtain ⟨ts, rfl⟩ := h'.isMap
  exact exists_map_takeCategory ts

/-! ### Merging -/

/-- No place is visited twice. -/
theorem nodup_scopePaths {fs : Entries} (h : Fits (Schema.wholeTheme blocks elements) fs)
    (table : BlockTable) : ((settingScopes table (.map fs)).map (·.path)).Nodup := by
  have hsettings : Value.entryNamed? "settings" (.map fs) = Entries.named? "settings" fs := rfl
  rw [settingScopes, hsettings]
  cases hv : Entries.named? "settings" fs with
  | none => exact List.nodup_nil
  | some v =>
    obtain ⟨ss, rfl, -, hss⟩ := exists_settings h hv
    rw [List.map_cons, List.nodup_cons]
    cases hb : Entries.named? "blocks" ss with
    | none => simp
    | some b =>
      obtain ⟨bs, fields, rfl, -, -, hbs⟩ := exists_blocks hss hb
      have hnames := nodup_entryNames hbs.distinct none
      simp only [List.map_map]
      refine ⟨fun hmem => ?_, ?_⟩
      · obtain ⟨name, -, heq⟩ := List.mem_map.mp hmem
        cases heq
      · rw [List.Nodup, List.pairwise_map]
        refine hnames.imp fun hne heq => hne ?_
        simpa [Scope.ofSettledBlock] using heq

/-- **The collection of a category in a merged tree**, where the tree that is merged in has one of a
single origin. It is what the overlay has there, with the collection of the origin taken over. -/
theorem at?_mergeTrees {es fs : Entries} {origin : Origin}
    (hf : Fits (Schema.wholeTheme blocks elements) fs) (hplace : SettingPlace blocks place)
    (hsingle : ∀ other, other ≠ origin →
      (Value.map fs).solid? (place ++ category.path ++ [other.name]) = none) :
    (mergeTrees (.map es) (.map fs)).at? (place ++ category.path) =
      takenInto (.map (overlay es fs)) place category origin
        ((Value.map (overlay es fs)).at? (place ++ category.path))
        ((Value.map fs).solid? (place ++ category.path ++ [origin.name])) := by
  have hoverlaid : (Value.map es).overlaid (.map fs) = .map (overlay es fs) :=
    Value.overlayValue_map_map es fs none none
  have hstart := AgreesFor.refl blocks place category (overlay es fs)
  have hplaces : ∀ other ∈ (settingScopes [] (.map fs)).map (·.path), SettingPlace blocks other :=
    fun other hother => ((mem_scopePaths_iff hf []).mp hother).1
  rw [mergeTrees, hoverlaid]
  by_cases hmem : place ∈ (settingScopes [] (.map fs)).map (·.path)
  · have hhas := foldl_once
      (R := fun tree => AgreesFor blocks place category tree (.map (overlay es fs)))
      (S := Has place category _) (nodup_scopePaths hf []) hmem
      (fun tree other hother hne h => h.takeScope hplace (hplaces other hother) hne _)
      (fun tree other hother hne h => h.of_agreesFor fun hself =>
        hself.takeScope hplace (hplaces other hother) hne _)
      (fun tree h => has_takeScope h hplace hsingle) hstart
    exact hhas.2
  · -- The place leads nowhere in the tree that is merged in.
    have hnone : (Value.map fs).solid? (place ++ category.path ++ [origin.name]) = none := by
      have hwalk : walk? place (.map fs) = none := by
        rw [← Option.not_isSome_iff_eq_none]
        exact fun hsome => hmem ((mem_scopePaths_iff hf []).mpr ⟨hplace, hsome⟩)
      rw [Value.solid?_eq, List.append_assoc, Value.at?_append hplace.ne_nil,
        Value.at?_of_ne_nil hplace.ne_nil, hwalk]
      rfl
    have hend : AgreesFor blocks place category
        (((settingScopes [] (.map fs)).map (·.path)).foldl (takeScope (.map fs)
          (defaultSlugs (.map (overlay es fs)) ["settings"])) (.map (overlay es fs)))
        (.map (overlay es fs)) :=
      List.foldlRecOn
        (motive := fun tree => AgreesFor blocks place category tree (.map (overlay es fs)))
        _ _ hstart fun tree h other hother =>
          h.takeScope hplace (hplaces other hother) (fun heq => hmem (heq ▸ hother)) _
    rw [hnone]
    exact hend.here

end Theme

end ThemeSheet
