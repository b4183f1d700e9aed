import ThemeSheet.Blocks.Registry

/-!
# What is registered

A registry and the caches over it are used in any order: names and supports are given for
registration, some of which are no block type, names are taken back, all of them are dropped, and
caches are connected, asked and invalidated. Such a use is a list of events, and what is registered
after it can be told from the list alone: of each name the block type that came last, unless the
name was taken back since, and the names in the order in which they came to stay.

None of this mentions how a registry is kept.

## Main definitions

* `Catalog`, a registry and the caches over it, with `Catalog.Event`, `Catalog.step` and
  `Catalog.run`;
* `Catalog.Stands`, of the latest registration of a name that is registered;
* `Catalog.Precedes`, of the order of names;
* `Catalog.Changes`, of an event that changes what is registered.

## Main results

* `Catalog.lists_run`: a registry holds what is registered;
* `Catalog.Lists.onRegistry_of_not_changes`, `revision_of_changes`: its revision tells changes.
-/

namespace ThemeSheet

/-- A registry and the caches over it. -/
structure Catalog where
  registry : Registry := {}
  caches : List MetadataCache := []

namespace Catalog

/-! ### Events -/

/-- What can happen to a registry and the caches over it. -/
inductive Event where
  /-- A name and supports are given for registration; they may be no block type. -/
  | register (name declared : Value)
  /-- The block type of a name is taken back, if there is one. -/
  | unregister (name : String)
  /-- All block types are dropped. -/
  | clear
  /-- A new cache is connected, with elements of its own. -/
  | connect (elements : List (String × String))
  /-- The cache at a place is asked for its table. -/
  | get (place : Nat)
  /-- The cache at a place is to forget its table. -/
  | invalidate (place : Nat)

namespace Event

/-- The block type that an event registers. -/
def block? : Event → Option BlockType
  | .register name declared => (Registration.blockType name declared).toOption
  | _ => none

/-- Whether an event takes back a name. -/
def removes (name : String) : Event → Bool
  | .unregister other => decide (other = name)
  | .clear => true
  | _ => false

/-- Whether an event ends what was registered under a name before it. -/
def Ends (name : String) (event : Event) : Prop :=
  event.removes name = true ∨ ∃ block, event.block? = some block ∧ block.name = name

/-- What an event makes of a registry. -/
def onRegistry (registry : Registry) : Event → Registry
  | .register name declared =>
    match Registration.register registry name declared with
    | .ok (_, registry) => registry
    | .error _ => registry
  | .unregister name => registry.unregister name
  | .clear => registry.clear
  | _ => registry

/-- What an event makes of the caches over a registry. -/
def onCaches (registry : Registry) (caches : List MetadataCache) : Event → List MetadataCache
  | .connect elements => caches ++ [.ofElements elements]
  | .get place => caches.modify place fun cache => (cache.get registry).2
  | .invalidate place => caches.modify place MetadataCache.invalidate
  | _ => caches

end Event

/-- The catalog after an event. -/
def step (catalog : Catalog) (event : Event) : Catalog :=
  ⟨event.onRegistry catalog.registry, event.onCaches catalog.registry catalog.caches⟩

/-- The catalog after some events, from an empty one at the beginning. -/
def run (events : List Event) : Catalog := events.foldl step {}

theorem run_append (events more : List Event) :
    run (events ++ more) = more.foldl step (run events) := List.foldl_append

theorem run_concat (events : List Event) (event : Event) :
    run (events ++ [event]) = step (run events) event := run_append events [event]

/-- **What holds at the beginning and is kept by every event** holds after all of them. -/
theorem run_induction {motive : List Event → Catalog → Prop} (nil : motive [] {})
    (concat : ∀ events event catalog, motive events catalog →
      motive (events ++ [event]) (step catalog event)) (events : List Event) :
    motive events (run events) := by
  have hfrom : ∀ (events before : List Event) (catalog : Catalog), motive before catalog →
      motive (before ++ events) (events.foldl step catalog) := by
    intro events
    induction events with
    | nil =>
      intro before catalog h
      rwa [List.append_nil]
    | cons event events ih =>
      intro before catalog h
      rw [List.append_cons]
      exact ih _ _ (concat before event catalog h)
  exact hfrom events [] {} nil

/-! ### What is registered, by the events alone -/

/-- The block type was registered, and nothing has ended that since. -/
def Stands (events : List Event) (block : BlockType) : Prop :=
  ∃ before event after, events = before ++ event :: after ∧ event.block? = some block ∧
    ∀ later ∈ after, ¬ later.Ends block.name

/-- A name is registered. -/
def IsRegistered (events : List Event) (name : String) : Prop :=
  ∃ block, Stands events block ∧ block.name = name

/-- There was a time when the one name was registered and the other was not, and since then the one
has not been taken back. -/
def Precedes (events : List Event) (name other : String) : Prop :=
  ∃ before after, events = before ++ after ∧ IsRegistered before name ∧
    ¬ IsRegistered before other ∧ ∀ event ∈ after, event.removes name = false

/-- An event that changes what is registered, after some events. -/
def Changes (events : List Event) : Event → Prop
  | .register name declared => ∃ block, Registration.blockType name declared = .ok block
  | .unregister name => IsRegistered events name
  | .clear => True
  | _ => False

section Events

variable {events : List Event} {event : Event} {block : BlockType} {name other : String}

@[simp] theorem not_stands_nil : ¬ Stands [] block := by
  rintro ⟨before, event, after, heq, -⟩
  simp at heq

/-- **One more event.** What it registers stands, and so does what stood before and is not ended. -/
theorem stands_concat : Stands (events ++ [event]) block ↔
    event.block? = some block ∨ (Stands events block ∧ ¬ event.Ends block.name) := by
  constructor
  · rintro ⟨before, first, after, heq, hblock, hafter⟩
    rcases List.eq_nil_or_concat after with rfl | ⟨after, last, rfl⟩
    · obtain ⟨-, hlast⟩ := List.append_inj' heq rfl
      cases hlast
      exact .inl hblock
    · rw [List.concat_eq_append, ← List.cons_append, ← List.append_assoc] at heq
      obtain ⟨rfl, hlast⟩ := List.append_inj' heq rfl
      cases hlast
      simp only [List.concat_eq_append, List.mem_append, List.mem_singleton] at hafter
      exact .inr ⟨⟨before, first, after, rfl, hblock, fun later h => hafter later (.inl h)⟩,
        hafter event (.inr rfl)⟩
  · rintro (hblock | ⟨⟨before, first, after, rfl, hblock, hafter⟩, hends⟩)
    · exact ⟨events, event, [], rfl, hblock, by simp⟩
    · refine ⟨before, first, after ++ [event], by simp, hblock, fun later hlater => ?_⟩
      rcases List.mem_append.mp hlater with hlater | hlater
      · exact hafter later hlater
      · rw [List.mem_singleton.mp hlater]
        exact hends

/-- The order of two names lasts until the first of them is taken back. -/
theorem Precedes.concat (h : Precedes events name other) (hkeep : event.removes name = false) :
    Precedes (events ++ [event]) name other := by
  obtain ⟨before, after, rfl, hname, hother, hafter⟩ := h
  refine ⟨before, after ++ [event], List.append_assoc .., hname, hother, fun later hlater => ?_⟩
  rcases List.mem_append.mp hlater with hlater | hlater
  · exact hafter later hlater
  · rw [List.mem_singleton.mp hlater]
    exact hkeep

/-- An event that registers takes nothing back. -/
theorem Event.removes_of_block? (h : event.block? = some block) (name : String) :
    event.removes name = false := by
  cases event with
  | register => rfl
  | _ => cases h

theorem Event.ends_of_block? (h : event.block? = some block) :
    event.Ends name ↔ block.name = name := by
  rw [Event.Ends, Event.removes_of_block? h]
  simp [h]

theorem Event.ends_of_block?_eq_none (h : event.block? = none) :
    event.Ends name ↔ event.removes name = true := by
  rw [Event.Ends, h]
  simp

end Events

/-! ### How a registry is kept -/

section Registry

variable {blocks : List BlockType} {b block : BlockType}

theorem names_place (block : BlockType) (blocks : List BlockType) :
    (Registry.place block blocks).map (·.name) =
      if block.name ∈ blocks.map (·.name) then blocks.map (·.name)
      else blocks.map (·.name) ++ [block.name] := by
  induction blocks with
  | nil => rfl
  | cons b blocks ih =>
    rw [Registry.place]
    by_cases h : b.name = block.name
    · rw [if_pos h]
      simp [h]
    · rw [if_neg h, List.map_cons, ih]
      by_cases hmem : block.name ∈ blocks.map (·.name)
      · rw [if_pos hmem, if_pos (by simp [hmem]), List.map_cons]
      · rw [if_neg hmem, if_neg (by simp [hmem, Ne.symm h]), List.map_cons, List.cons_append]

theorem mem_place (h : (blocks.map (·.name)).Nodup) :
    b ∈ Registry.place block blocks ↔ b = block ∨ (b ∈ blocks ∧ b.name ≠ block.name) := by
  induction blocks with
  | nil => simp [Registry.place]
  | cons first blocks ih =>
    rw [List.map_cons, List.nodup_cons] at h
    rw [Registry.place]
    by_cases hfirst : first.name = block.name
    · -- The first one is replaced, and no other has its name.
      have hrest : ∀ b ∈ blocks, b.name ≠ block.name := by
        intro b hb hname
        exact h.1 (hfirst ▸ hname ▸ List.mem_map_of_mem hb)
      rw [if_pos hfirst, List.mem_cons, List.mem_cons]
      constructor
      · rintro (rfl | hb)
        · exact .inl rfl
        · exact .inr ⟨.inr hb, hrest b hb⟩
      · rintro (rfl | ⟨rfl | hb, hname⟩)
        · exact .inl rfl
        · exact absurd hfirst hname
        · exact .inr hb
    · rw [if_neg hfirst, List.mem_cons, ih h.2, List.mem_cons]
      constructor
      · rintro (rfl | rfl | ⟨hb, hname⟩)
        · exact .inr ⟨.inl rfl, hfirst⟩
        · exact .inl rfl
        · exact .inr ⟨.inr hb, hname⟩
      · rintro (rfl | ⟨rfl | hb, hname⟩)
        · exact .inr (.inl rfl)
        · exact .inl rfl
        · exact .inr (.inr ⟨hb, hname⟩)

theorem isRegistered_iff {registry : Registry} {name : String} :
    registry.isRegistered name = true ↔ name ∈ registry.names := by
  simp [Registry.isRegistered, Registry.find?, Registry.names, List.find?_isSome]

end Registry

/-! ### One event -/

section OnRegistry

variable {registry : Registry} {event : Event} {block : BlockType} {name : String}
  {declared : Value}

theorem Event.onRegistry_of_block? (h : event.block? = some block) :
    event.onRegistry registry = registry.register block := by
  cases event with
  | register name declared =>
    cases hblock : Registration.blockType name declared with
    | error e => rw [Event.block?, hblock] at h; cases h
    | ok b =>
      rw [Event.block?, hblock] at h
      cases h
      rw [Event.onRegistry, Registration.register, hblock]
      rfl
  | _ => cases h

/-- What is refused leaves a registry as it was. -/
theorem Event.onRegistry_of_refused {name : Value} {e : Registration.Error}
    (h : Registration.blockType name declared = .error e) :
    (Event.register name declared).onRegistry registry = registry := by
  rw [Event.onRegistry, Registration.register, h]
  rfl

/-- An event that registers nothing leaves of the block types those that it does not take back. -/
theorem Event.blocks_onRegistry (h : event.block? = none) :
    (event.onRegistry registry).blocks = registry.blocks.filter fun b => !event.removes b.name := by
  cases event with
  | register name declared =>
    cases hblock : Registration.blockType name declared with
    | ok b => rw [Event.block?, hblock] at h; cases h
    | error e =>
      rw [Event.onRegistry_of_refused hblock]
      exact (List.filter_eq_self.mpr fun _ _ => rfl).symm
  | unregister name =>
    rw [Event.onRegistry, Registry.unregister]
    split
    · simp [Event.removes, eq_comm]
    next hname =>
      rw [isRegistered_iff] at hname
      symm
      rw [List.filter_eq_self]
      intro b hb
      have hne : name ≠ b.name := fun heq => hname (heq ▸ List.mem_map_of_mem hb)
      simp [Event.removes, hne]
  | clear => simp [Event.onRegistry, Registry.clear, Event.removes]
  | _ => exact (List.filter_eq_self.mpr fun _ _ => rfl).symm

end OnRegistry

/-- A registry holds what is registered after some events: of every name the block type that stands,
in the order of the names. -/
structure Lists (events : List Event) (registry : Registry) : Prop where
  nodup : registry.names.Nodup
  mem_iff : ∀ block, block ∈ registry.blocks ↔ Stands events block
  ordered : registry.names.Pairwise (Precedes events)

namespace Lists

variable {events : List Event} {registry : Registry} {event : Event} {block : BlockType}
  {name : String}

theorem mem_names_iff (h : Lists events registry) :
    name ∈ registry.names ↔ IsRegistered events name := by
  rw [Registry.names, List.mem_map]
  exact exists_congr fun block => and_congr_left' (h.mem_iff block)

/-- A block type is registered: it takes the place of the one of its name, or comes last. -/
theorem register (h : Lists events registry) (hblock : event.block? = some block) :
    Lists (events ++ [event]) (registry.register block) := by
  have hkeep := Event.removes_of_block? hblock
  have hnames := names_place block registry.blocks
  change (registry.register block).names = if block.name ∈ registry.names then registry.names
    else registry.names ++ [block.name] at hnames
  have hordered := h.ordered.imp fun {a b} hab => Precedes.concat hab (hkeep a)
  refine ⟨?_, fun b => ?_, ?_⟩
  · rw [hnames]
    split
    · exact h.nodup
    next hnew =>
      refine List.nodup_append.mpr ⟨h.nodup, by simp, fun a ha b hb hab => hnew ?_⟩
      rwa [← List.mem_singleton.mp hb, ← hab]
  · rw [stands_concat, hblock, Event.ends_of_block? hblock, ← h.mem_iff, Option.some_inj]
    exact (mem_place h.nodup).trans (or_congr eq_comm (and_congr_right' ne_comm))
  · rw [hnames]
    split
    · exact hordered
    next hnew =>
      refine List.pairwise_append.mpr ⟨hordered, List.pairwise_singleton _ _, ?_⟩
      intro a ha b hb
      rw [List.mem_singleton.mp hb]
      rw [h.mem_names_iff] at ha hnew
      exact ⟨events, [event], rfl, ha, hnew, by simpa using hkeep a⟩

/-- Nothing is registered: what is not taken back stays. -/
theorem filter (h : Lists events registry) (hblock : event.block? = none) :
    Lists (events ++ [event]) (event.onRegistry registry) := by
  have hblocks : (event.onRegistry registry).blocks =
      registry.blocks.filter fun b => !event.removes b.name := Event.blocks_onRegistry hblock
  have hnames : (event.onRegistry registry).names =
      registry.names.filter fun name => !event.removes name := by
    rw [Registry.names, hblocks, Registry.names, List.filter_map]
    rfl
  refine ⟨?_, fun b => ?_, ?_⟩
  · rw [hnames]
    exact h.nodup.filter _
  · rw [stands_concat, hblock, Event.ends_of_block?_eq_none hblock, ← h.mem_iff, hblocks,
      List.mem_filter]
    simp
  · rw [hnames, List.pairwise_filter]
    refine h.ordered.imp fun {a b} hab hkeep _ => hab.concat ?_
    simpa using hkeep

/-- **What one event keeps.** -/
theorem onRegistry (h : Lists events registry) (event : Event) :
    Lists (events ++ [event]) (event.onRegistry registry) := by
  cases hblock : event.block? with
  | none => exact h.filter hblock
  | some block =>
    rw [Event.onRegistry_of_block? hblock]
    exact h.register hblock

/-- An event that changes nothing leaves a registry as it was. -/
theorem onRegistry_of_not_changes (h : Lists events registry) (hsame : ¬ Changes events event) :
    event.onRegistry registry = registry := by
  cases event with
  | register name declared =>
    cases hblock : Registration.blockType name declared with
    | error e => exact Event.onRegistry_of_refused hblock
    | ok block => exact absurd ⟨block, hblock⟩ hsame
  | unregister name =>
    have hname : ¬ registry.isRegistered name = true := by
      rw [isRegistered_iff, h.mem_names_iff]
      exact hsame
    rw [Event.onRegistry, Registry.unregister, if_neg hname]
  | clear => exact absurd trivial hsame
  | _ => rfl

/-- **An event that changes what is registered raises the revision.** -/
theorem revision_of_changes (h : Lists events registry) (hchanges : Changes events event) :
    (event.onRegistry registry).revision = registry.revision + 1 := by
  cases event with
  | register name declared =>
    obtain ⟨block, hblock⟩ := hchanges
    have hsome : (Event.register name declared).block? = some block := by
      rw [Event.block?, hblock]
      rfl
    rw [Event.onRegistry_of_block? hsome]
    rfl
  | unregister name =>
    have hname : registry.isRegistered name = true := by
      rw [isRegistered_iff, h.mem_names_iff]
      exact hchanges
    rw [Event.onRegistry, Registry.unregister, if_pos hname]
  | clear => rfl
  | _ => exact absurd hchanges id

theorem revision_le (h : Lists events registry) (event : Event) :
    registry.revision ≤ (event.onRegistry registry).revision := by
  by_cases hchanges : Changes events event
  · rw [h.revision_of_changes hchanges]
    exact Nat.le_succ _
  · exact Nat.le_of_eq (congrArg Registry.revision (h.onRegistry_of_not_changes hchanges)).symm

end Lists

/-- A registry of which nothing has been asked holds nothing. -/
theorem lists_nil : Lists [] {} := ⟨List.nodup_nil, by simp, List.Pairwise.nil⟩

/-- **A registry holds what is registered.** -/
theorem lists_run (events : List Event) : Lists events (run events).registry :=
  run_induction (motive := fun events catalog => Lists events catalog.registry) lists_nil
    (fun _ event _ h => h.onRegistry event) events

end Catalog

end ThemeSheet
