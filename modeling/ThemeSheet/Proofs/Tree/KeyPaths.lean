import ThemeSheet.Proofs.Tree.Unshared

/-!
# Ways by keys

A path leads along names. A mapping may have other keys besides, and what stands under these can
only be come to by the keys themselves. So whoever says something of *everything* in a tree says it
of ways by keys, of which the paths are those by names alone.

A change of a tree touches some ways, and with each of them all that lead on from it. Of what it
leaves alone two things can be said. At a way that is not touched there is something before and
after or at neither time, and it is the same but for the entries of a mapping, which are come to by
ways of their own; and what has no touched way in it is the same as a whole.

A change that does nothing but remove and add is told more exactly, by the ways at which it removes
something and by those at which it adds something. Everything else that was there is there, and
nothing else has come.

## Main definitions

* `Value.walkKeys?`, and `Path.keys` for a path as a way by keys;
* `Value.HasDistinctKeys`, of a value in which no mapping has two entries of one key;
* `Value.shell`, a value without the entries that it has as a mapping;
* `Value.SameOff`, of values that are the same off some ways;
* `Value.DiffersBy`, of values that differ by what has been removed and added.

## Main results

* `Value.walkKeys?_keys`: paths are ways by names;
* `Value.SameOff.of_entries`: it is told entry by entry;
* `Value.sameOff_setEntries`, `sameOff_unsetEntries`, `sameOff_modifyMap`, `sameOff_mapEach`: what
  the changes of a tree touch;
* `Value.differsBy_insert`, `differsBy_erase`, `differsBy_modifyMap`, `differsBy_mapEach`: what they
  add and remove.
-/

namespace ThemeSheet

/-- A path as a way by keys. -/
def Path.keys (p : Path) : List Key := p.map Key.text

namespace Path

@[simp] theorem keys_nil : Path.keys [] = [] := rfl

@[simp] theorem keys_cons (name : String) (rest : Path) :
    Path.keys (name :: rest) = .text name :: Path.keys rest := rfl

@[simp] theorem keys_append (p q : Path) : Path.keys (p ++ q) = p.keys ++ q.keys := List.map_append

end Path

namespace Value

variable {es fs : Entries} {key : Key} {v w u : Value} {name : String} {mark : Option Mark}

/-! ### Walks -/

/-- The value reached by walking all the keys; an empty walk stays where it is. -/
def walkKeys? : List Key → Value → Option Value
  | [], v => some v
  | key :: rest, .map es _ => (Entries.get? key es).bind (walkKeys? rest)
  | _ :: _, _ => none

@[simp] theorem walkKeys?_nil (v : Value) : v.walkKeys? [] = some v := by cases v <;> rfl

@[simp] theorem walkKeys?_cons_map (key : Key) (rest : List Key) (es : Entries)
    (mark : Option Mark) : walkKeys? (key :: rest) (.map es mark) =
      (Entries.get? key es).bind (walkKeys? rest) := rfl

@[simp] theorem walkKeys?_singleton_map (key : Key) (es : Entries) (mark : Option Mark) :
    walkKeys? [key] (.map es mark) = Entries.get? key es := by
  cases h : Entries.get? key es <;> simp [h]

theorem walkKeys?_cons_of_not_map (h : v.isMap = false) (key : Key) (rest : List Key) :
    v.walkKeys? (key :: rest) = none := by
  cases v with
  | map es mark => cases h
  | _ => rfl

theorem walkKeys?_append (ks ls : List Key) (v : Value) :
    v.walkKeys? (ks ++ ls) = (v.walkKeys? ks).bind (walkKeys? ls) := by
  induction ks generalizing v with
  | nil => rw [List.nil_append, walkKeys?_nil, Option.bind_some]
  | cons key rest ih =>
    cases v with
    | map es mark =>
      rw [List.cons_append, walkKeys?_cons_map, walkKeys?_cons_map, Option.bind_assoc]
      congr 1
      funext w
      exact ih w
    | _ => rfl

/-- **Paths are ways by names.** -/
@[simp] theorem walkKeys?_keys (p : Path) (v : Value) : v.walkKeys? p.keys = v.walk? p := by
  induction p generalizing v with
  | nil => exact walkKeys?_nil v
  | cons name rest ih =>
    cases v with
    | map es mark =>
      rw [Path.keys_cons, walkKeys?_cons_map, walk?_cons_map, Entries.named?]
      congr 1
      funext w
      exact ih w
    | _ => rfl

/-- Everything in a tree is a tree. -/
theorem IsTree.walkKeys? {keys : List Key} (h : v.IsTree) (hw : v.walkKeys? keys = some w) :
    w.IsTree := by
  induction keys generalizing v with
  | nil =>
    rw [walkKeys?_nil] at hw
    cases hw
    exact h
  | cons key rest ih =>
    cases v with
    | map es mark =>
      rw [walkKeys?_cons_map, Option.bind_eq_some_iff] at hw
      obtain ⟨u, hu, hw⟩ := hw
      exact ih ((isTree_map.mp h).2.get? hu) hw
    | _ => cases hw

/-! ### Distinct keys -/

mutual

/-- No mapping that can be come to by keys has two entries of one key. -/
def HasDistinctKeys : Value → Prop
  | .map es _ => Entries.Distinct es ∧ EntriesHaveDistinctKeys es
  | _ => True

/-- No mapping that can be come to from the values of a mapping has two entries of one key. -/
def EntriesHaveDistinctKeys : List (Key × Value) → Prop
  | [] => True
  | (_, v) :: es => HasDistinctKeys v ∧ EntriesHaveDistinctKeys es

end

theorem entriesHaveDistinctKeys_iff {es : List (Key × Value)} :
    EntriesHaveDistinctKeys es ↔ ∀ e ∈ es, e.2.HasDistinctKeys := by
  induction es with
  | nil => simp [EntriesHaveDistinctKeys]
  | cons e es ih => rw [EntriesHaveDistinctKeys, ih, List.forall_mem_cons]

@[simp] theorem hasDistinctKeys_map : HasDistinctKeys (.map es mark) ↔
    Entries.Distinct es ∧ ∀ e ∈ es, e.2.HasDistinctKeys := by
  rw [HasDistinctKeys, entriesHaveDistinctKeys_iff]

theorem HasDistinctKeys.get? (h : HasDistinctKeys (.map es mark))
    (hv : Entries.get? key es = some v) : v.HasDistinctKeys := by
  obtain ⟨k, -, hmem⟩ := Entries.mem_of_get? hv
  exact (hasDistinctKeys_map.mp h).2 _ hmem

theorem HasDistinctKeys.named? (h : HasDistinctKeys (.map es mark))
    (hv : Entries.named? name es = some v) : v.HasDistinctKeys := h.get? hv

theorem IsTree.hasDistinctKeys {v : Value} (h : v.IsTree) : v.HasDistinctKeys := by
  match v with
  | .map es mark =>
    obtain ⟨-, hes⟩ := isTree_map.mp h
    refine hasDistinctKeys_map.mpr ⟨hes.distinct, ?_⟩
    rintro ⟨k, w⟩ he
    have hsize := Entries.sizeOf_lt_of_mem he
    exact IsTree.hasDistinctKeys (hes.value _ he)
  | .list _ _ | .null | .bool _ | .int _ | .float _ | .moment _ | .text _ =>
    rw [HasDistinctKeys]
    · trivial
    · simp
termination_by sizeOf v

/-! ### The same off some ways -/

/-- A value without the entries that it has as a mapping. -/
def shell (v : Value) : Value := v.onMap fun _ => []

theorem isMap_shell (v : Value) : v.shell.isMap = v.isMap := by cases v <;> rfl

/-- Two values are the same off some ways. A way that leads on from a touched one is taken to be
touched as well. -/
structure SameOff (touched : List Key → Prop) (v w : Value) : Prop where
  /-- At a way that is not touched there is the same, entries of a mapping aside. -/
  shell : ∀ q, ¬ touched q → (w.walkKeys? q).map shell = (v.walkKeys? q).map shell
  /-- Where no touched way goes on, there is the same as a whole. -/
  whole : ∀ q, (∀ rest, ¬ touched (q ++ rest)) → w.walkKeys? q = v.walkKeys? q

namespace SameOff

variable {touched : List Key → Prop}

theorem refl (touched : List Key → Prop) (v : Value) : SameOff touched v v :=
  ⟨fun _ _ => rfl, fun _ _ => rfl⟩

theorem trans (h : SameOff touched u v) (h' : SameOff touched v w) : SameOff touched u w :=
  ⟨fun q hq => (h'.shell q hq).trans (h.shell q hq),
    fun q hq => (h'.whole q hq).trans (h.whole q hq)⟩

/-- **It is told entry by entry.** Under each key all is touched, or there are values that are the
same off how the ways go on, or there is nothing; and the mapping is the same if nothing is
touched. -/
theorem of_entries (hnone : (∀ q, ¬ touched q) → fs = es)
    (h : ∀ key, (∀ rest, touched (key :: rest)) ∨ Entries.get? key fs = Entries.get? key es ∨
      ∃ v w, Entries.get? key es = some v ∧ Entries.get? key fs = some w ∧
        SameOff (fun q => touched (key :: q)) v w) :
    SameOff touched (.map es mark) (.map fs mark) := by
  constructor
  · intro q hq
    cases q with
    | nil => rfl
    | cons key rest =>
      rw [walkKeys?_cons_map, walkKeys?_cons_map]
      obtain hall | hsame | ⟨v, w, hv, hw, hvw⟩ := h key
      · exact absurd (hall rest) hq
      · rw [hsame]
      · rw [hv, hw]
        exact hvw.shell rest hq
  · intro q hq
    cases q with
    | nil => rw [walkKeys?_nil, walkKeys?_nil, hnone hq]
    | cons key rest =>
      rw [walkKeys?_cons_map, walkKeys?_cons_map]
      obtain hall | hsame | ⟨v, w, hv, hw, hvw⟩ := h key
      · exact absurd (hall rest) (by simpa using hq [])
      · rw [hsame]
      · rw [hv, hw]
        exact hvw.whole rest hq

end SameOff

/-! ### What changes touch -/

variable {touched : List Key → Prop} {f : Entries → Entries} {pre p : Path}

/-- Mappings that differ under one name are the same off what is under it. -/
theorem sameOff_of_get? (h : ∀ rest, touched (.text name :: rest))
    (hothers : ∀ key, (Key.text name).agrees key = false →
      Entries.get? key fs = Entries.get? key es) (mark : Option Mark) :
    SameOff touched (.map es mark) (.map fs mark) := by
  refine .of_entries (fun hnone => absurd (h []) (hnone _)) fun key => ?_
  by_cases hkey : (Key.text name).agrees key = true
  · rw [Key.text_agrees_iff.mp hkey]
    exact .inl h
  · exact .inr (.inl (hothers key (by simpa using hkey)))

/-- Writing an entry touches what is under its key. -/
theorem sameOff_insert (h : ∀ rest, touched (.text name :: rest)) (v : Value) (es : Entries)
    (mark : Option Mark) :
    SameOff touched (.map es mark) (.map (Entries.insert (.text name) v es) mark) := by
  refine sameOff_of_get? h (fun key hkey => ?_) mark
  rw [Entries.get?_insert, Key.agrees_comm, hkey, if_neg Bool.false_ne_true]

/-- Removing an entry touches what is under its key. -/
theorem sameOff_erase (h : ∀ rest, touched (.text name :: rest)) (es : Entries)
    (mark : Option Mark) :
    SameOff touched (.map es mark) (.map (Entries.erase (.text name) es) mark) := by
  refine sameOff_of_get? h (fun key hkey => ?_) mark
  rw [Key.agrees_comm] at hkey
  exact Entries.get?_erase_of_not_agrees hkey es

/-- A change of a mapping, or of no mapping, touches what it touches in a mapping. -/
theorem sameOff_onMap
    (h : ∀ inner mark, v = .map inner mark →
      SameOff touched (.map inner mark) (.map (f inner) mark)) :
    SameOff touched v (v.onMap f) := by
  cases v with
  | map inner mark => exact h inner mark rfl
  | _ => exact .refl _ _

/-- A change of the mapping under a name touches what it touches in that mapping. -/
theorem sameOff_modifyMap
    (h : ∀ inner mark, Entries.named? name es = some (.map inner mark) →
      SameOff (fun q => touched (.text name :: q)) (.map inner mark) (.map (f inner) mark))
    (mark : Option Mark) :
    SameOff touched (.map es mark) (.map (Entries.modifyMap name f es) mark) := by
  have hunder : ∀ v, Entries.named? name es = some v →
      SameOff (fun q => touched (.text name :: q)) v (v.onMap f) :=
    fun v hv => sameOff_onMap fun inner mark heq => h inner mark (heq ▸ hv)
  refine .of_entries (fun hnone => ?_) fun key => ?_
  · refine Entries.modifyMap_eq_self fun v hv => ?_
    have hsame := (hunder v hv).whole [] fun rest => hnone _
    simpa using hsame
  · by_cases hkey : (Key.text name).agrees key = true
    · rw [Key.text_agrees_iff.mp hkey]
      have hread := Entries.named?_modifyMap name name f es
      rw [if_pos rfl, Entries.named?] at hread
      rw [hread, Entries.named?]
      cases hv : Entries.get? (.text name) es with
      | none => exact .inr (.inl rfl)
      | some v => exact .inr (.inr ⟨v, v.onMap f, rfl, rfl, hunder v hv⟩)
    · exact .inr (.inl (Entries.get?_modifyMap_of_not_agrees (by simpa using hkey) f es))

/-- A change of every mapping among the values touches what it touches in each of them. -/
theorem sameOff_mapEach
    (h : ∀ key inner mark,
      SameOff (fun q => touched (key :: q)) (.map inner mark) (.map (f inner) mark))
    (es : Entries) (mark : Option Mark) :
    SameOff touched (.map es mark) (.map (Entries.mapEach f es) mark) := by
  have hunder : ∀ key v, SameOff (fun q => touched (key :: q)) v (v.onMap f) :=
    fun key v => sameOff_onMap fun inner mark _ => h key inner mark
  refine .of_entries (fun hnone => ?_) fun key => ?_
  · refine Entries.mapEach_eq_self fun e _ => ?_
    have hsame := (hunder e.1 e.2).whole [] fun rest => hnone _
    simpa using hsame
  · rw [Entries.get?_mapEach]
    cases Entries.get? key es with
    | none => exact .inr (.inl rfl)
    | some v => exact .inr (.inr ⟨v, v.onMap f, rfl, rfl, hunder key v⟩)

/-- **Writing at a path** touches what is at that path or below it, if there is a mapping to write
into. -/
theorem sameOff_setEntries {inner : Entries} {m : Option Mark}
    (hinto : walk? pre (.map es mark) = some (.map inner m))
    (h : ∀ rest, touched (Path.keys (pre ++ [name]) ++ rest)) (v : Value) :
    SameOff touched (.map es mark) (.map (setEntries (pre ++ [name]) v es) mark) := by
  induction pre generalizing es mark touched with
  | nil => exact sameOff_insert h v es mark
  | cons a rest ih =>
    rw [walk?_cons_map, Option.bind_eq_some_iff] at hinto
    obtain ⟨w, hw, hinto⟩ := hinto
    obtain ⟨under, m', rfl⟩ := exists_map_of_walk?_map hinto
    rw [List.cons_append, setEntries_cons (by simp), hw, orEmptyMap, onMap,
      ← Entries.modifyMap_eq_insert hw]
    refine sameOff_modifyMap (fun inner mark heq => ?_) mark
    rw [hw] at heq
    cases heq
    exact ih hinto h

/-- **Removing at a path** touches what is at that path or below it. -/
theorem sameOff_unsetEntries (hp : p ≠ []) (h : ∀ rest, touched (p.keys ++ rest)) (es : Entries)
    (mark : Option Mark) :
    SameOff touched (.map es mark) (.map (unsetEntries p es) mark) := by
  induction p generalizing es mark touched with
  | nil => exact absurd rfl hp
  | cons a rest ih =>
    cases rest with
    | nil => exact sameOff_erase h es mark
    | cons b rest =>
      rw [unsetEntries_cons_cons]
      exact sameOff_modifyMap (fun inner mark _ => ih (by simp) h inner mark) mark

/-! ### What is removed and what is added -/

/-- One value has come of another one. What was there is there, entries of a mapping aside, unless
it has been removed; and if something was not there and is there, it has been added. -/
structure DiffersBy (removed added : List Key → Prop) (v w : Value) : Prop where
  kept : ∀ q u, v.walkKeys? q = some u → ¬ removed q → (w.walkKeys? q).map shell = some u.shell
  added : ∀ q, v.walkKeys? q = none → (w.walkKeys? q).isSome = true → added q

section DiffersBy

variable {removed added removed' added' : List Key → Prop}

namespace DiffersBy

theorem refl (removed added : List Key → Prop) (v : Value) : DiffersBy removed added v v := by
  refine ⟨fun q u hu _ => by rw [hu, Option.map_some], fun q hnone hsome => ?_⟩
  rw [hnone] at hsome
  cases hsome

theorem mono (h : DiffersBy removed added v w) (hremoved : ∀ q, removed q → removed' q)
    (hadded : ∀ q, added q → added' q) : DiffersBy removed' added' v w :=
  ⟨fun q u hu hq => h.kept q u hu (mt (hremoved q) hq),
    fun q hnone hsome => hadded q (h.added q hnone hsome)⟩

theorem trans (h : DiffersBy removed added u v) (h' : DiffersBy removed added v w) :
    DiffersBy removed added u w := by
  constructor
  · intro q x hx hq
    obtain ⟨y, hy, hshell⟩ := Option.map_eq_some_iff.mp (h.kept q x hx hq)
    rw [h'.kept q y hy hq, hshell]
  · intro q hnone hsome
    cases hv : v.walkKeys? q with
    | none => exact h'.added q hv hsome
    | some y => exact h.added q hnone (by rw [hv]; rfl)

/-- **It is told entry by entry.** What is under a key has been removed, or it has changed in this
way; and what is under a new key has been added. -/
theorem of_get?
    (hkept : ∀ key v, Entries.get? key es = some v →
      (Entries.get? key fs = none ∧ ∀ q, removed (key :: q)) ∨
      ∃ w, Entries.get? key fs = some w ∧
        DiffersBy (fun q => removed (key :: q)) (fun q => added (key :: q)) v w)
    (hadded : ∀ key w, Entries.get? key es = none → Entries.get? key fs = some w →
      ∀ q, (w.walkKeys? q).isSome = true → added (key :: q)) :
    DiffersBy removed added (.map es mark) (.map fs mark) := by
  constructor
  · intro q u hu hq
    cases q with
    | nil =>
      rw [walkKeys?_nil] at hu ⊢
      cases hu
      rfl
    | cons key rest =>
      rw [walkKeys?_cons_map, Option.bind_eq_some_iff] at hu
      obtain ⟨v, hv, hu⟩ := hu
      obtain ⟨-, hall⟩ | ⟨w, hw, hvw⟩ := hkept key v hv
      · exact absurd (hall rest) hq
      · rw [walkKeys?_cons_map, hw, Option.bind_some]
        exact hvw.kept rest u hu hq
  · intro q hnone hsome
    cases q with
    | nil =>
      rw [walkKeys?_nil] at hnone
      cases hnone
    | cons key rest =>
      obtain ⟨x, hx⟩ := Option.isSome_iff_exists.mp hsome
      rw [walkKeys?_cons_map, Option.bind_eq_some_iff] at hx
      obtain ⟨w, hw, hx⟩ := hx
      have hsome : (w.walkKeys? rest).isSome = true := by rw [hx]; rfl
      cases hv : Entries.get? key es with
      | none => exact hadded key w hv hw rest hsome
      | some v =>
        rw [walkKeys?_cons_map, hv, Option.bind_some] at hnone
        obtain ⟨hgone, -⟩ | ⟨w', hw', hvw⟩ := hkept key v hv
        · rw [hgone] at hw
          cases hw
        · cases hw.symm.trans hw'
          exact hvw.added rest hnone hsome

/-- A change of a mapping, or of no mapping, differs as it does in a mapping. -/
theorem onMap (h : ∀ inner m, v = .map inner m →
      DiffersBy removed added (.map inner m) (.map (f inner) m)) :
    DiffersBy removed added v (v.onMap f) := by
  cases v with
  | map inner m => exact h inner m rfl
  | _ => exact .refl _ _ _

end DiffersBy

/-- Writing an entry that is not there adds what is under its key. -/
theorem differsBy_insert (hnone : Entries.named? name es = none)
    (h : ∀ q, (v.walkKeys? q).isSome = true → added (.text name :: q)) (mark : Option Mark) :
    DiffersBy removed added (.map es mark) (.map (Entries.insert (.text name) v es) mark) := by
  refine .of_get? (fun key w hw => ?_) fun key w hw hnew q hq => ?_
  · have hkey : key.agrees (.text name) ≠ true := by
      rw [Key.agrees_comm]
      intro hkey
      rw [Key.text_agrees_iff.mp hkey] at hw
      cases hnone.symm.trans hw
    exact .inr ⟨w, by rw [Entries.get?_insert, if_neg hkey, hw], .refl _ _ _⟩
  · rw [Entries.get?_insert] at hnew
    split at hnew
    next hkey =>
      cases hnew
      rw [Key.agrees_comm] at hkey
      rw [Key.text_agrees_iff.mp hkey]
      exact h q hq
    next =>
      rw [hw] at hnew
      cases hnew

/-- Removing an entry removes what is under its key. -/
theorem differsBy_erase (hd : Entries.Distinct es) (h : ∀ q, removed (.text name :: q))
    (mark : Option Mark) :
    DiffersBy removed added (.map es mark) (.map (Entries.erase (.text name) es) mark) := by
  refine .of_get? (fun key w hw => ?_) fun key w hw hnew q hq => ?_
  · rw [Entries.get?_erase hd]
    split
    next hkey =>
      rw [Key.agrees_comm] at hkey
      rw [Key.text_agrees_iff.mp hkey]
      exact .inl ⟨rfl, h⟩
    next => exact .inr ⟨w, hw, .refl _ _ _⟩
  · rw [Entries.get?_erase hd, hw, ite_self] at hnew
    cases hnew

/-- A change of the mapping under a name differs as it does in that mapping. -/
theorem differsBy_modifyMap
    (h : ∀ inner m, Entries.named? name es = some (.map inner m) →
      DiffersBy (fun q => removed (.text name :: q)) (fun q => added (.text name :: q))
        (.map inner m) (.map (f inner) m)) (mark : Option Mark) :
    DiffersBy removed added (.map es mark) (.map (Entries.modifyMap name f es) mark) := by
  have hread := Entries.named?_modifyMap name name f es
  rw [if_pos rfl] at hread
  refine .of_get? (fun key v hv => .inr ?_) fun key w hnone hw => ?_
  · by_cases hkey : (Key.text name).agrees key = true
    · rw [Key.text_agrees_iff.mp hkey] at hv ⊢
      rw [Entries.named?, Entries.named?, hv] at hread
      exact ⟨_, hread, .onMap fun inner m heq => h inner m (heq ▸ hv)⟩
    · rw [Entries.get?_modifyMap_of_not_agrees (by simpa using hkey)]
      exact ⟨v, hv, .refl _ _ _⟩
  · by_cases hkey : (Key.text name).agrees key = true
    · rw [Key.text_agrees_iff.mp hkey] at hnone hw
      rw [Entries.named?, Entries.named?, hnone, hw] at hread
      cases hread
    · rw [Entries.get?_modifyMap_of_not_agrees (by simpa using hkey), hnone] at hw
      cases hw

/-- A change of every mapping among the values differs as it does in each of them. -/
theorem differsBy_mapEach
    (h : ∀ key inner m, Entries.get? key es = some (.map inner m) →
      DiffersBy (fun q => removed (key :: q)) (fun q => added (key :: q))
        (.map inner m) (.map (f inner) m)) (mark : Option Mark) :
    DiffersBy removed added (.map es mark) (.map (Entries.mapEach f es) mark) := by
  refine .of_get? (fun key v hv => .inr ?_) fun key w hnone hw => ?_
  · rw [Entries.get?_mapEach, hv]
    exact ⟨_, rfl, .onMap fun inner m heq => h key inner m (heq ▸ hv)⟩
  · rw [Entries.get?_mapEach, hnone] at hw
    cases hw

end DiffersBy

end Value

end ThemeSheet
