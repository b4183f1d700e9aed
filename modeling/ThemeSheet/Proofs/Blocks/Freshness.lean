import ThemeSheet.Proofs.Blocks.Registered

/-!
# Caches are never stale

A cache knows of its registry the revision at which it has built the table it holds, and no more.
That is enough. The revision of a registry only grows, and grows with every change, so a table of
the present revision is the table of the registry, and a table of another revision stays one of
another revision whatever is done next. What a cache answers is therefore always made of what is
registered when it is asked; and it is the very table of its last answer, told by its serial number,
as long as nothing has changed what is registered and the cache has not been invalidated.

Any number of caches may be connected to one registry, each with elements of its own, and each is
asked and invalidated for itself.

## Main definitions

* `MetadataCache.IsSound`, what is kept of a cache and its registry;
* `Catalog.answer?`, what a cache answers; `Catalog.IsCurrent`, of a table of what is registered;
* `Catalog.Outdates`, of an event after which a cache builds a new table, and
  `Catalog.Undisturbed`, of events none of which does.

## Main results

* `MetadataCache.IsSound.table_get`: what a cache answers is the table of its registry;
* `Catalog.isSound_run`: all caches are sound after any events;
* `Catalog.tables_fresh`: caches are never stale.
-/

namespace ThemeSheet

/-! ### One cache -/

namespace MetadataCache

variable {registry registry' : Registry} {cache : MetadataCache} {built : BuiltTable}

/-- A table that a cache holds is none of a later revision; if it is of the present one it is the
table of the registry; and its serial number has been given. -/
structure IsSoundFor (registry : Registry) (cache : MetadataCache) (built : BuiltTable) : Prop where
  revision_le : built.revision ≤ registry.revision
  table_eq : built.revision = registry.revision → built.table = registry.table cache.elements
  serial_le : built.serial ≤ cache.builds

/-- What a cache holds, if it holds a table, is sound. -/
def IsSound (registry : Registry) (cache : MetadataCache) : Prop :=
  ∀ built, cache.held = some built → IsSoundFor registry cache built

theorem valid?_eq_some_iff : cache.valid? registry = some built ↔
    cache.held = some built ∧ built.revision = registry.revision := by
  rw [valid?, Option.filter_eq_some_iff, decide_eq_true_eq]

theorem valid?_eq_none_iff : cache.valid? registry = none ↔
    ∀ built, cache.held = some built → built.revision ≠ registry.revision := by
  rw [Option.eq_none_iff_forall_ne_some]
  simp only [ne_eq, valid?_eq_some_iff, not_and]

theorem get_of_valid? (h : cache.valid? registry = some built) :
    cache.get registry = (built, cache) := by
  rw [get, h]

theorem get_of_valid?_eq_none (h : cache.valid? registry = none) :
    cache.get registry = (cache.build registry,
      { cache with held := some (cache.build registry), builds := cache.builds + 1 }) := by
  rw [get, h]

/-- A new table is one of the present revision. -/
theorem isSoundFor_build (builds : Nat) (h : cache.builds < builds) (held : Option BuiltTable) :
    IsSoundFor registry { cache with held, builds } (cache.build registry) :=
  ⟨Nat.le_refl _, fun _ => rfl, h⟩

theorem isSound_ofElements (registry : Registry) (elements : List (String × String)) :
    IsSound registry (.ofElements elements) := nofun

theorem isSound_invalidate (registry : Registry) (cache : MetadataCache) :
    IsSound registry cache.invalidate := nofun

theorem IsSound.get (h : IsSound registry cache) : IsSound registry (cache.get registry).2 := by
  cases hvalid : cache.valid? registry with
  | some built =>
    rw [get_of_valid? hvalid]
    exact h
  | none =>
    rw [get_of_valid?_eq_none hvalid]
    rintro built hbuilt
    cases hbuilt
    exact isSoundFor_build _ (Nat.lt_succ_self _) _

/-- A table stays sound while its registry does not change, and when the revision grows. -/
theorem IsSound.of_registry (h : IsSound registry cache)
    (hnext : registry' = registry ∨ registry.revision < registry'.revision) :
    IsSound registry' cache := by
  rcases hnext with rfl | hlt
  · exact h
  · intro built hbuilt
    have hle := Nat.lt_of_le_of_lt (h built hbuilt).revision_le hlt
    exact ⟨Nat.le_of_lt hle, fun heq => absurd heq (Nat.ne_of_lt hle), (h built hbuilt).serial_le⟩

/-- **What a cache answers is the table of its registry.** -/
theorem IsSound.table_get (h : IsSound registry cache) :
    (cache.get registry).1.table = registry.table cache.elements := by
  cases hvalid : cache.valid? registry with
  | some built =>
    rw [get_of_valid? hvalid]
    obtain ⟨hheld, hrevision⟩ := valid?_eq_some_iff.mp hvalid
    exact (h built hheld).table_eq hrevision
  | none =>
    rw [get_of_valid?_eq_none hvalid]
    rfl

/-- What a cache has answered is valid. -/
theorem valid?_get (cache : MetadataCache) (registry : Registry) :
    (cache.get registry).2.valid? registry = some (cache.get registry).1 := by
  cases hvalid : cache.valid? registry with
  | some built => rwa [get_of_valid? hvalid]
  | none =>
    rw [get_of_valid?_eq_none hvalid]
    exact valid?_eq_some_iff.mpr ⟨rfl, rfl⟩

@[simp] theorem elements_get (cache : MetadataCache) (registry : Registry) :
    (cache.get registry).2.elements = cache.elements := by
  rw [get]
  split <;> rfl

/-- A table that is not valid does not become so again. -/
theorem IsSound.valid?_eq_none (h : IsSound registry cache) (hnone : cache.valid? registry = none)
    (hle : registry.revision ≤ registry'.revision) : cache.valid? registry' = none := by
  rw [valid?_eq_none_iff] at hnone ⊢
  intro built hbuilt
  have hlt := Nat.lt_of_le_of_ne (h built hbuilt).revision_le (hnone built hbuilt)
  exact Nat.ne_of_lt (Nat.lt_of_lt_of_le hlt hle)

/-- A table that is valid is so no more when the revision grows. -/
theorem valid?_eq_none_of_lt (hvalid : cache.valid? registry = some built)
    (hlt : registry.revision < registry'.revision) : cache.valid? registry' = none := by
  obtain ⟨hheld, hrevision⟩ := valid?_eq_some_iff.mp hvalid
  rw [valid?_eq_none_iff]
  intro other hother
  cases hheld.symm.trans hother
  exact Nat.ne_of_lt (hrevision ▸ hlt)

end MetadataCache

namespace Catalog

variable {events since : List Event} {event : Event} {catalog : Catalog} {place : Nat}
  {cache : MetadataCache} {first : BuiltTable}

/-! ### All caches -/

/-- The elements that an event connects a cache with. -/
def Event.elements? : Event → Option (List (String × String))
  | .connect elements => some elements
  | _ => none

/-- What the cache at a place answers. -/
def answer? (catalog : Catalog) (place : Nat) : Option BuiltTable :=
  catalog.caches[place]?.map fun cache => (cache.get catalog.registry).1

/-- What an event makes of the registry is the same one, or one of a greater revision. -/
theorem Lists.eq_or_lt (h : Lists events catalog.registry) (event : Event) :
    (step catalog event).registry = catalog.registry ∨
      catalog.registry.revision < (step catalog event).registry.revision := by
  by_cases hchanges : Changes events event
  · exact .inr (by rw [step, h.revision_of_changes hchanges]; exact Nat.lt_succ_self _)
  · exact .inl (h.onRegistry_of_not_changes hchanges)

/-- A cache among some of which one has changed was there before, or is the one that has changed. -/
theorem exists_of_mem_modify {caches : List MetadataCache} {f : MetadataCache → MetadataCache}
    (h : cache ∈ caches.modify place f) : ∃ old ∈ caches, cache = old ∨ cache = f old := by
  obtain ⟨i, hi⟩ := List.mem_iff_getElem?.mp h
  simp only [List.getElem?_modify, Option.map_eq_map, Option.map_eq_some_iff] at hi
  obtain ⟨old, hold, rfl⟩ := hi
  refine ⟨old, List.mem_of_getElem? hold, ?_⟩
  split
  · exact .inr rfl
  · exact .inl rfl

/-- A change that keeps the elements of a cache keeps those of all caches. -/
theorem elements_modify {f : MetadataCache → MetadataCache}
    (hf : ∀ cache, (f cache).elements = cache.elements) (caches : List MetadataCache)
    (place : Nat) : (caches.modify place f).map (·.elements) = caches.map (·.elements) := by
  refine List.ext_getElem? fun i => ?_
  simp only [List.getElem?_map, List.getElem?_modify, Option.map_eq_map, Option.map_map]
  congr 1
  funext cache
  rw [Function.comp_apply]
  split
  · exact hf cache
  · rfl

/-- Every cache after an event was there before, or has been asked or invalidated, or is new. -/
theorem mem_caches_step (h : cache ∈ (step catalog event).caches) :
    (∃ old ∈ catalog.caches, cache = old ∨ cache = (old.get catalog.registry).2 ∨
      cache = old.invalidate) ∨ ∃ elements, cache = .ofElements elements := by
  cases event with
  | connect elements =>
    rcases List.mem_append.mp h with h | h
    · exact .inl ⟨cache, h, .inl rfl⟩
    · exact .inr ⟨elements, List.mem_singleton.mp h⟩
  | get place =>
    obtain ⟨old, hold, hcache⟩ := exists_of_mem_modify h
    exact .inl ⟨old, hold, hcache.imp_right .inl⟩
  | invalidate place =>
    obtain ⟨old, hold, hcache⟩ := exists_of_mem_modify h
    exact .inl ⟨old, hold, hcache.imp_right .inr⟩
  | _ => exact .inl ⟨cache, h, .inl rfl⟩

/-- **All caches are sound.** -/
theorem isSound_run (events : List Event) :
    ∀ cache ∈ (run events).caches, cache.IsSound (run events).registry := by
  refine (run_induction (motive := fun events catalog => Lists events catalog.registry ∧
    ∀ cache ∈ catalog.caches, cache.IsSound catalog.registry) ⟨lists_nil, nofun⟩ ?_ events).2
  rintro events event catalog ⟨hlists, hsound⟩
  refine ⟨hlists.onRegistry event, fun cache hcache => ?_⟩
  have hnext := hlists.eq_or_lt event
  obtain ⟨old, hold, rfl | rfl | rfl⟩ | ⟨elements, rfl⟩ := mem_caches_step hcache
  · exact (hsound _ hold).of_registry hnext
  · exact (hsound old hold).get.of_registry hnext
  · exact MetadataCache.isSound_invalidate _ _
  · exact MetadataCache.isSound_ofElements _ _

/-- Every cache keeps the elements that it was connected with. -/
theorem elements_run (events : List Event) :
    (run events).caches.map (·.elements) = events.filterMap Event.elements? := by
  refine run_induction (motive := fun events catalog =>
    catalog.caches.map (·.elements) = events.filterMap Event.elements?) rfl ?_ events
  intro events event catalog h
  rw [List.filterMap_append, ← h]
  cases event with
  | connect elements => simp [step, Event.onCaches, MetadataCache.ofElements, Event.elements?]
  | get place =>
    rw [step, Event.onCaches, elements_modify fun cache => cache.elements_get catalog.registry]
    exact (List.append_nil _).symm
  | invalidate place =>
    rw [step, Event.onCaches, elements_modify (f := MetadataCache.invalidate) fun _ => rfl]
    exact (List.append_nil _).symm
  | _ => exact (List.append_nil _).symm

/-! ### Tables -/

/-- A table of what is registered after some events, with the given elements: of every name that is
registered it has the metadata of the block type that stands, in the order of the names. -/
structure IsCurrent (events : List Event) (elements : List (String × String)) (table : BlockTable) :
    Prop where
  nodup : table.names.Nodup
  mem_iff : ∀ name metadata, (name, metadata) ∈ table ↔ ∃ block, Stands events block ∧
    block.name = name ∧ metadata = BlockMetadata.ofBlockType elements block
  ordered : table.names.Pairwise (Precedes events)

/-- The table of a registry is one of what is registered. -/
theorem Lists.isCurrent {registry : Registry} (h : Lists events registry)
    (elements : List (String × String)) : IsCurrent events elements (registry.table elements) := by
  have hnames : (registry.table elements).names = registry.names := by
    simp [Registry.table, BlockTable.ofBlocks, BlockTable.names, Registry.names]
  refine ⟨?_, fun name metadata => ?_, ?_⟩
  · rw [hnames]
    exact h.nodup
  · rw [Registry.table, BlockTable.ofBlocks, List.mem_map]
    refine exists_congr fun block => ?_
    rw [h.mem_iff, Prod.mk.injEq, eq_comm (a := metadata)]
  · rw [hnames]
    exact h.ordered

/-! ### The same table -/

/-- An event after which the cache at a place builds a new table. -/
def Outdates (events : List Event) (place : Nat) (event : Event) : Prop :=
  Changes events event ∨ event = .invalidate place

/-- None of the events that follow makes the cache at a place build a new table. -/
def Undisturbed (events : List Event) (place : Nat) (since : List Event) : Prop :=
  ∀ mid event rest, since = mid ++ event :: rest → ¬ Outdates (events ++ mid) place event

/-- The cache at a place holds a table, and it is valid. -/
def Keeps (place : Nat) (first : BuiltTable) (catalog : Catalog) : Prop :=
  ∃ cache, catalog.caches[place]? = some cache ∧ cache.valid? catalog.registry = some first

/-- The cache at a place holds no valid table, and has built the given one or a later one. -/
def Misses (place : Nat) (first : BuiltTable) (catalog : Catalog) : Prop :=
  ∃ cache, catalog.caches[place]? = some cache ∧ cache.valid? catalog.registry = none ∧
    first.serial ≤ cache.builds

theorem undisturbed_cons : Undisturbed events place (event :: since) ↔
    ¬ Outdates events place event ∧ Undisturbed (events ++ [event]) place since := by
  constructor
  · intro h
    refine ⟨?_, fun mid other rest heq => ?_⟩
    · have hfirst := h [] event since rfl
      rwa [List.append_nil] at hfirst
    · rw [← List.append_cons]
      exact h (event :: mid) other rest (by rw [heq]; rfl)
  · rintro ⟨hfirst, hrest⟩ mid other rest heq
    cases mid with
    | nil =>
      obtain ⟨rfl, -⟩ := List.cons_eq_cons.mp heq
      rwa [List.append_nil]
    | cons head mid =>
      obtain ⟨rfl, rfl⟩ := List.cons_eq_cons.mp heq
      rw [List.append_cons]
      exact hrest mid other rest rfl

/-- The answer is the table that is kept. -/
theorem Keeps.answer?_eq (h : Keeps place first catalog) : catalog.answer? place = some first := by
  obtain ⟨cache, hcache, hvalid⟩ := h
  rw [answer?, hcache, Option.map_some, MetadataCache.get_of_valid? hvalid]

/-- The answer is another table. -/
theorem Misses.exists_answer? (h : Misses place first catalog) :
    ∃ second, catalog.answer? place = some second ∧ first.serial < second.serial := by
  obtain ⟨cache, hcache, hnone, hserial⟩ := h
  refine ⟨cache.build catalog.registry, ?_, Nat.lt_succ_of_le hserial⟩
  rw [answer?, hcache, Option.map_some, MetadataCache.get_of_valid?_eq_none hnone]

/-- What a cache has answered it keeps. -/
theorem keeps_step_get (h : catalog.answer? place = some first) :
    Keeps place first (step catalog (.get place)) := by
  obtain ⟨cache, hcache, rfl⟩ := Option.map_eq_some_iff.mp h
  refine ⟨(cache.get catalog.registry).2, ?_, cache.valid?_get catalog.registry⟩
  simp [step, Event.onCaches, hcache]

/-- A cache is left alone by all events but those that ask or invalidate it. -/
theorem caches_step (hcache : catalog.caches[place]? = some cache) (hget : event ≠ .get place)
    (hinvalidate : event ≠ .invalidate place) :
    (step catalog event).caches[place]? = some cache := by
  cases event with
  | connect elements =>
    obtain ⟨hlt, -⟩ := List.getElem?_eq_some_iff.mp hcache
    rw [step, Event.onCaches, List.getElem?_append_left hlt, hcache]
  | get other =>
    have hne : other ≠ place := fun h => hget (congrArg Event.get h)
    rw [step, Event.onCaches, List.getElem?_modify_ne _ _ hne, hcache]
  | invalidate other =>
    have hne : other ≠ place := fun h => hinvalidate (congrArg Event.invalidate h)
    rw [step, Event.onCaches, List.getElem?_modify_ne _ _ hne, hcache]
  | _ => exact hcache

theorem caches_step_invalidate (hcache : catalog.caches[place]? = some cache) :
    (step catalog (.invalidate place)).caches[place]? = some cache.invalidate := by
  simp [step, Event.onCaches, hcache]

/-- **A table is kept by an event that does not outdate it.** -/
theorem Keeps.step (h : Keeps place first catalog) (hlists : Lists events catalog.registry)
    (hget : event ≠ .get place) (hsame : ¬ Outdates events place event) :
    Keeps place first (step catalog event) := by
  obtain ⟨cache, hcache, hvalid⟩ := h
  rw [Outdates, not_or] at hsame
  refine ⟨cache, caches_step hcache hget hsame.2, ?_⟩
  rwa [Catalog.step, hlists.onRegistry_of_not_changes hsame.1]

/-- **A table is missed after an event that outdates it.** -/
theorem Keeps.misses (h : Keeps place first catalog) (hlists : Lists events catalog.registry)
    (hsound : ∀ cache ∈ catalog.caches, cache.IsSound catalog.registry)
    (hget : event ≠ .get place) (houtdates : Outdates events place event) :
    Misses place first (Catalog.step catalog event) := by
  obtain ⟨cache, hcache, hvalid⟩ := h
  have hserial := (hsound cache (List.mem_of_getElem? hcache) first
    (MetadataCache.valid?_eq_some_iff.mp hvalid).1).serial_le
  by_cases hinvalidate : event = .invalidate place
  · subst hinvalidate
    exact ⟨cache.invalidate, caches_step_invalidate hcache, rfl, hserial⟩
  · have hchanges := houtdates.resolve_right hinvalidate
    refine ⟨cache, caches_step hcache hget hinvalidate, ?_, hserial⟩
    refine MetadataCache.valid?_eq_none_of_lt hvalid ?_
    rw [Catalog.step, hlists.revision_of_changes hchanges]
    exact Nat.lt_succ_self _

/-- A table that is missed is not found again before the cache is asked. -/
theorem Misses.step (h : Misses place first catalog) (hlists : Lists events catalog.registry)
    (hsound : ∀ cache ∈ catalog.caches, cache.IsSound catalog.registry)
    (hget : event ≠ .get place) : Misses place first (step catalog event) := by
  obtain ⟨cache, hcache, hnone, hserial⟩ := h
  by_cases hinvalidate : event = .invalidate place
  · subst hinvalidate
    exact ⟨cache.invalidate, caches_step_invalidate hcache, rfl, hserial⟩
  · refine ⟨cache, caches_step hcache hget hinvalidate, ?_, hserial⟩
    exact (hsound cache (List.mem_of_getElem? hcache)).valid?_eq_none hnone
      (hlists.revision_le event)

/-- What is missed stays missed through events that do not ask the cache. -/
theorem misses_run (h : Misses place first (run events)) (hget : .get place ∉ since) :
    Misses place first (run (events ++ since)) := by
  induction since generalizing events with
  | nil => rwa [List.append_nil]
  | cons event since ih =>
    rw [List.mem_cons, not_or] at hget
    rw [List.append_cons]
    refine ih ?_ hget.2
    rw [run_concat]
    exact h.step (lists_run events) (isSound_run events) (Ne.symm hget.1)

/-- **A table is kept through undisturbed events, and missed after any others.** -/
theorem keeps_or_misses_run (h : Keeps place first (run events)) (hget : .get place ∉ since) :
    (Undisturbed events place since ∧ Keeps place first (run (events ++ since))) ∨
      (¬ Undisturbed events place since ∧ Misses place first (run (events ++ since))) := by
  induction since generalizing events with
  | nil => exact .inl ⟨by simp [Undisturbed], by rwa [List.append_nil]⟩
  | cons event since ih =>
    rw [List.mem_cons, not_or] at hget
    have hne := Ne.symm hget.1
    rw [undisturbed_cons, List.append_cons events event since]
    by_cases houtdates : Outdates events place event
    · have hmisses : Misses place first (run (events ++ [event])) := by
        rw [run_concat]
        exact h.misses (lists_run events) (isSound_run events) hne houtdates
      exact .inr ⟨fun hundisturbed => hundisturbed.1 houtdates, misses_run hmisses hget.2⟩
    · have hkeeps : Keeps place first (run (events ++ [event])) := by
        rw [run_concat]
        exact h.step (lists_run events) hne houtdates
      rw [and_iff_right houtdates]
      exact ih hkeeps hget.2

/-- **Caches are never stale.** After any events, each cache that has been connected answers with a
table of what is registered, made with its own elements. The answer is the very one that it gave
last, serial number included, exactly if no event since has changed what is registered or
invalidated this cache. And what is refused for registration leaves the registry, the revision
included, as it was. -/
theorem tables_fresh (events : List Event) :
    (∀ place elements, (events.filterMap Event.elements?)[place]? = some elements →
      ∃ built, (run events).answer? place = some built ∧ IsCurrent events elements built.table) ∧
    (∀ before since place first, events = before ++ .get place :: since → .get place ∉ since →
      (run before).answer? place = some first →
      ∃ second, (run events).answer? place = some second ∧
        (second = first ↔ Undisturbed (before ++ [.get place]) place since)) ∧
    ∀ name declared error,
      Registration.register (run events).registry name declared = .error error →
        (run (events ++ [.register name declared])).registry = (run events).registry := by
  refine ⟨fun place elements helements => ?_, ?_, fun name declared error hrefused => ?_⟩
  · rw [← elements_run, List.getElem?_map, Option.map_eq_some_iff] at helements
    obtain ⟨cache, hcache, rfl⟩ := helements
    refine ⟨(cache.get (run events).registry).1, by rw [answer?, hcache]; rfl, ?_⟩
    rw [(isSound_run events cache (List.mem_of_getElem? hcache)).table_get]
    exact (lists_run events).isCurrent cache.elements
  · rintro before since place first rfl hget hfirst
    have hkeeps : Keeps place first (run (before ++ [.get place])) := by
      rw [run_concat]
      exact keeps_step_get hfirst
    rw [List.append_cons]
    rcases keeps_or_misses_run hkeeps hget with ⟨hundisturbed, hkeeps⟩ | ⟨hdisturbed, hmisses⟩
    · exact ⟨first, hkeeps.answer?_eq, iff_of_true rfl hundisturbed⟩
    · obtain ⟨second, hsecond, hlt⟩ := hmisses.exists_answer?
      refine ⟨second, hsecond, iff_of_false ?_ hdisturbed⟩
      rintro rfl
      exact Nat.lt_irrefl _ hlt
  · rw [run_concat, step, Event.onRegistry, hrefused]

/-- A quote is registered, and a cache is connected and asked. What is refused for registration, and
a name that is taken back though it is not registered, leave it with the table of its answer. -/
theorem tables_fresh_quote :
    let before : List Event := [.register (.text "core/quote") (.map []), .connect [("link", "a")]]
    let since : List Event := [.register .null (.map []), .unregister "core/table"]
    let events := before ++ .get 0 :: since
    (∃ built, (run events).answer? 0 = some built ∧ IsCurrent events [("link", "a")] built.table) ∧
      (∃ built, (run before).answer? 0 = some built ∧ (run events).answer? 0 = some built) ∧
      (run (events ++ [.register .null (.map [])])).registry = (run events).registry := by
  intro before since events
  obtain ⟨hanswers, hsame, hrefused⟩ := tables_fresh events
  refine ⟨hanswers 0 _ rfl, ?_, hrefused _ _ .invalid rfl⟩
  obtain ⟨second, hsecond, hiff⟩ := hsame before since 0 _ rfl (by simp [since]) rfl
  refine ⟨_, rfl, hsecond.trans (congrArg some (hiff.mpr ?_))⟩
  have htable : ¬ IsRegistered (before ++ [.get 0] ++ [.register .null (.map [])])
      "core/table" := by
    rw [← (lists_run _).mem_names_iff]
    decide
  have hnull : ¬ ∃ block, Registration.blockType .null (.map []) = .ok block := nofun
  simp only [since, undisturbed_cons, Outdates, Changes, reduceCtorEq, or_false]
  exact ⟨hnull, htable, by simp [Undisturbed]⟩

end Catalog

end ThemeSheet
