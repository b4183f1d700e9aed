import ThemeSheet.Proofs.Json.Content
import ThemeSheet.Proofs.Results
import ThemeSheet.Source.Manifest
import ThemeSheet.Source.ThemeFile

/-!
# How reading a file fails

Whatever the bytes of a file are, reading them ends in a value, in a problem that is reported, or in
a breakdown. There is a breakdown exactly where the bytes are no text, where the parser stops over
something else than the syntax, and, for a manifest, where an unknown section or origin cannot even
be spelled for the report.

## Main definitions

* `Failure.IsReported`, the outcomes that are no breakdowns;
* `ThemeFile.IsReadable`, `Manifest.IsReadable`, `Manifest.IsSpelled`.

## Main results

* `ThemeFile.isReported_ofBytes_iff`, `ThemeFile.isMap_of_ofBytes`;
* `ThemeFile.hasContent_of_ofBytes`: what JSON files hold;
* `Manifest.isReadable_of_isReported`, `Manifest.isReported_ofBytes`;
* `ThemeFile.run_load`, `Manifest.run_load`: what is loaded from a disk.
-/

namespace ThemeSheet

/-! ### Outcomes -/

namespace Failure

variable {π α : Type}

/-- An outcome that is no breakdown: a value, or a problem to be reported. -/
def IsReported (outcome : Except (Failure π) α) : Prop := ∀ b, outcome ≠ .error (.breakdown b)

theorem isReported_ok (a : α) : IsReported (.ok a : Except (Failure π) α) := fun _ h => by cases h

theorem isReported_problem (p : π) : IsReported (.error (.problem p) : Except (Failure π) α) :=
  fun _ h => by cases h

theorem not_isReported (b : Breakdown) :
    ¬ IsReported (.error (.breakdown b) : Except (Failure π) α) := fun h => h b rfl

end Failure

/-! ### Theme files -/

namespace ThemeFile

/-- The parser of a format gives the value of a text, or stops over the syntax. -/
def IsParsed : Format → List Char → Prop
  | .yaml, text => ∀ mishap, Yaml.read text ≠ .error (.unprepared mishap)
  | .json, text => ∀ digits, Json.read text ≠ .error (.numeralTooLong digits)

/-- Bytes are a text that is blank or parsed. A blank text is not given to the parser. -/
def IsReadable (format : Format) (bytes : List UInt8) : Prop :=
  ∃ text, Text.ofBytes bytes = .ok text ∧ (text.all Text.isBlank = true ∨ IsParsed format text)

theorem isReported_valueOf_iff {format : Format} {text : List Char} :
    Failure.IsReported (valueOf format text) ↔ IsParsed format text := by
  cases format with
  | yaml =>
    unfold valueOf IsParsed
    rcases hread : Yaml.read text with (fault | mishap) | t
    · exact iff_of_true (Failure.isReported_problem _) (by simp [hread])
    · exact iff_of_false (Failure.not_isReported _) (by simp [hread])
    · exact iff_of_true (Failure.isReported_ok t) (by simp [hread])
  | json =>
    unfold valueOf IsParsed
    rcases hread : Json.read text with (⟨fault, place⟩ | digits) | tree
    · exact iff_of_true (Failure.isReported_problem _) (by simp [hread])
    · exact iff_of_false (Failure.not_isReported _) (by simp [hread])
    · exact iff_of_true (Failure.isReported_ok _) (by simp [hread])

theorem isReported_rooted (t : LinkedTree) : Failure.IsReported (rooted t) := by
  unfold rooted
  split
  · exact Failure.isReported_ok _
  · exact Failure.isReported_ok _
  · exact Failure.isReported_problem _

theorem isReported_ofText_iff {format : Format} {text : List Char} :
    Failure.IsReported (ofText format text) ↔
      text.all Text.isBlank = true ∨ IsParsed format text := by
  unfold ofText
  split
  next hblank => exact iff_of_true (Failure.isReported_ok _) (.inl hblank)
  next hblank =>
    rw [or_iff_right hblank, ← isReported_valueOf_iff]
    rcases valueOf format text with failure | t
    · cases failure with
      | problem p => exact iff_of_true (Failure.isReported_problem p) (Failure.isReported_problem p)
      | breakdown b => exact iff_of_false (Failure.not_isReported b) (Failure.not_isReported b)
    · exact iff_of_true (isReported_rooted t) (Failure.isReported_ok t)

/-- **Reading bytes as a theme breaks down exactly if they are no text or if the parser does.** -/
theorem isReported_ofBytes_iff {format : Format} {bytes : List UInt8} :
    Failure.IsReported (ofBytes format bytes) ↔ IsReadable format bytes := by
  unfold ofBytes Failure.decoded IsReadable
  cases Text.ofBytes bytes with
  | error fault => exact iff_of_false (Failure.not_isReported _) (by simp)
  | ok text =>
    show Failure.IsReported (ofText format text) ↔ _
    simp [isReported_ofText_iff]

/-- What is read is a mapping. -/
theorem isMap_of_ofBytes {format : Format} {bytes : List UInt8} {t : LinkedTree}
    (h : ofBytes format bytes = .ok t) : t.tree.isMap = true := by
  obtain ⟨text, -, htext⟩ := Result.exists_of_bind h
  unfold ofText at htext
  split at htext
  · cases htext
    rfl
  · obtain ⟨value, -, hrooted⟩ := Result.exists_of_bind htext
    unfold rooted at hrooted
    split at hrooted
    · cases hrooted
      rfl
    · cases hrooted
      rfl
    · cases hrooted

/-- **What is read from a JSON file** is a tree as JSON has it. -/
theorem hasContent_of_ofBytes {bytes : List UInt8} {t : LinkedTree}
    (h : ofBytes .json bytes = .ok t) : t.tree.HasContent .json := by
  have hempty : Value.emptyMap.HasContent .json :=
    Value.hasContent_map.mpr ⟨rfl, Entries.haveContent_nil⟩
  obtain ⟨text, -, htext⟩ := Result.exists_of_bind h
  unfold ofText at htext
  split at htext
  · cases htext
    exact hempty
  · obtain ⟨t', hvalue, hrooted⟩ := Result.exists_of_bind htext
    have hread : t'.tree.HasContent .json := by
      unfold valueOf at hvalue
      dsimp only at hvalue
      split at hvalue
      next tree htree =>
        cases hvalue
        exact Json.hasContent_read htree
      all_goals cases hvalue
    unfold rooted at hrooted
    split at hrooted
    · cases hrooted
      exact hempty
    next es mark hmap =>
      cases hrooted
      rw [hmap] at hread
      -- There are no marks in JSON, so the entries are those that were read.
      obtain ⟨rfl, hes⟩ := Value.hasContent_map.mp hread
      exact Value.hasContent_map.mpr ⟨rfl, hes⟩
    · cases hrooted

end ThemeFile

/-! ### Manifests -/

namespace Manifest

/-- Bytes are a text that the parser gives the entries of, or stops at over the syntax. -/
def IsReadable (bytes : List UInt8) : Prop :=
  ∃ text, Text.ofBytes bytes = .ok text ∧ ∀ digits, Toml.read text ≠ .error (.numeralTooLong digits)

/-- The items of the list under a name. -/
def listed (name : String) (es : Entries) : List Value :=
  match Entries.named? name es with
  | some (.list items _) => items
  | _ => []

/-- The items that stand for sections and for origins. -/
def wanted (es : Entries) : List Value :=
  match Entries.named? "stylesheet" es with
  | some (.map sub _) => listed "types" sub ++ listed "origins" sub
  | _ => []

/-- A breakdown over an item that cannot be spelled. -/
def IsUnspelled (items : List Value) (b : Breakdown) : Prop :=
  ∃ v ∈ items, ∃ refusal, v.spelling = .error refusal ∧ b = .request (.refused refusal)

theorem IsUnspelled.mono {items items' : List Value} {b : Breakdown} (h : IsUnspelled items b)
    (hsub : items ⊆ items') : IsUnspelled items' b :=
  let ⟨v, hv, hb⟩ := h
  ⟨v, hsub hv, hb⟩

theorem isReported_ofValues (index : Nat) (vs : List Value) :
    Failure.IsReported (BlockDeclaration.ofValues index vs) := by
  induction vs generalizing index with
  | nil => exact Failure.isReported_ok []
  | cons v vs ih =>
    intro b h
    unfold BlockDeclaration.ofValues at h
    rcases Result.error_of_bind h with hvalue | ⟨block, -, h⟩
    · unfold BlockDeclaration.ofValue at hvalue
      split at hvalue
      · split at hvalue <;> cases hvalue
      · cases hvalue
    · rcases Result.error_of_bind h with hrest | ⟨blocks, -, h⟩
      · exact ih (index + 1) b hrest
      · cases h

/-- What is thrown with the spelling of a value breaks down if there is no spelling. -/
theorem isUnspelled_of_throw {α : Type} {v : Value} {problem : String → ManifestProblem}
    {b : Breakdown}
    (h : (do throw (.problem (problem (← Failure.ofRefusal v.spelling))) :
      Except (Failure ManifestProblem) α) = .error (.breakdown b)) : IsUnspelled [v] b := by
  cases hspelling : v.spelling with
  | ok s =>
    rw [hspelling] at h
    cases h
  | error refusal =>
    rw [hspelling] at h
    cases h
    exact ⟨v, List.mem_singleton_self v, refusal, hspelling, rfl⟩

theorem isUnspelled_of_sectionOf {v : Value} {b : Breakdown}
    (h : sectionOf v = .error (.breakdown b)) : IsUnspelled [v] b := by
  unfold sectionOf at h
  split at h
  · cases h
  · exact isUnspelled_of_throw h

theorem isUnspelled_of_originOf {v : Value} {b : Breakdown}
    (h : originOf v = .error (.breakdown b)) : IsUnspelled [v] b := by
  unfold originOf at h
  split at h
  · cases h
  · exact isUnspelled_of_throw h

theorem isUnspelled_of_itemsOf {α : Type} {name : String} {es : Entries} {default : List α}
    {read : Value → Except (Failure ManifestProblem) α} {problem : ManifestProblem}
    {b : Breakdown}
    (hread : ∀ v, read v = .error (.breakdown b) → IsUnspelled [v] b)
    (h : itemsOf name es default read problem = .error (.breakdown b)) :
    IsUnspelled (listed name es) b := by
  unfold itemsOf at h
  split at h
  · cases h
  next items mark hitems =>
    obtain ⟨v, hv, hitem⟩ := Result.error_of_mapM h
    rw [listed, hitems]
    exact (hread v hitem).mono (by simpa using hv)
  · cases h

/-- What is made of blocks and of the entries for the stylesheet. -/
theorem isUnspelled_of_parts {blocks : List Value} {sub : Entries} {b : Breakdown}
    (h : (do
      let blocks ← BlockDeclaration.ofValues 0 blocks
      let sections ← itemsOf "types" sub StyleSection.all sectionOf .sectionsNotArray
      let origins ← itemsOf "origins" sub Origin.all originOf .originsNotArray
      return { blocks, sections, origins } : Except (Failure ManifestProblem) Manifest) =
        .error (.breakdown b)) :
    IsUnspelled (listed "types" sub ++ listed "origins" sub) b := by
  rcases Result.error_of_bind h with hblocks | ⟨_, -, h⟩
  · exact absurd hblocks (isReported_ofValues 0 blocks b)
  rcases Result.error_of_bind h with hsections | ⟨_, -, h⟩
  · exact (isUnspelled_of_itemsOf (fun _ => isUnspelled_of_sectionOf) hsections).mono
      (List.subset_append_left _ _)
  rcases Result.error_of_bind h with horigins | ⟨_, -, h⟩
  · exact (isUnspelled_of_itemsOf (fun _ => isUnspelled_of_originOf) horigins).mono
      (List.subset_append_right _ _)
  · cases h

/-- The entries of a manifest break down only over a section or an origin without a spelling. -/
theorem isUnspelled_of_ofEntries {es : Entries} {b : Breakdown}
    (h : ofEntries es = .error (.breakdown b)) : IsUnspelled (wanted es) b := by
  unfold ofEntries at h
  dsimp only at h
  split at h
  case h_3 => cases h
  -- there are blocks, or none are declared
  all_goals
    split at h
    next =>
      simp only [pure_bind] at h
      exact (isUnspelled_of_parts h).mono (List.nil_subset _)
    next sub mark hsub =>
      simp only [pure_bind] at h
      rw [wanted, hsub]
      exact isUnspelled_of_parts h
    next => cases h

/-- Every section and origin that the bytes of a manifest ask for has a spelling. -/
def IsSpelled (bytes : List UInt8) : Prop :=
  ∀ text es, Text.ofBytes bytes = .ok text → Toml.read text = .ok es →
    ∀ v ∈ wanted es, ∃ s, v.spelling = .ok s

/-- What is read of bytes that are a text. -/
theorem ofBytes_of_text {bytes : List UInt8} {text : List Char}
    (htext : Text.ofBytes bytes = .ok text) : ofBytes bytes = match Toml.read text with
      | .ok es => ofEntries es
      | .error (.malformed fault) => .error (.problem (.invalidToml fault))
      | .error (.numeralTooLong digits) => .error (.breakdown (.numeralTooLong digits)) := by
  unfold ofBytes Failure.decoded
  rw [htext]
  rfl

/-- Bytes that are no text, or that the parser breaks down over, are a breakdown. -/
theorem isReadable_of_isReported {bytes : List UInt8} (h : Failure.IsReported (ofBytes bytes)) :
    IsReadable bytes := by
  cases htext : Text.ofBytes bytes with
  | error fault =>
    unfold ofBytes Failure.decoded at h
    rw [htext] at h
    exact absurd h (Failure.not_isReported _)
  | ok text =>
    refine ⟨text, htext, fun digits hread => ?_⟩
    rw [ofBytes_of_text htext, hread] at h
    exact Failure.not_isReported _ h

/-- **Readable bytes break down only over a section or an origin without a spelling.** -/
theorem isReported_ofBytes {bytes : List UInt8} (h : IsReadable bytes)
    (hspelled : IsSpelled bytes) : Failure.IsReported (ofBytes bytes) := by
  obtain ⟨text, htext, hread⟩ := h
  intro b hb
  rw [ofBytes_of_text htext] at hb
  split at hb
  next es hes =>
    obtain ⟨v, hv, refusal, hrefused, -⟩ := isUnspelled_of_ofEntries hb
    obtain ⟨s, hs⟩ := hspelled text es htext hes v hv
    cases hs.symm.trans hrefused
  next => cases hb
  next digits hdigits => exact hread digits hdigits

end Manifest

/-! ### Files on a disk -/

/-- What follows on an action goes on from where the action ended. -/
theorem run_bind_of {σ α β : Type} {x : StateM σ α} {f : α → StateM σ β} {s s' : σ} {a : α}
    (h : x.run s = (a, s')) : (x >>= f).run s = (f a).run s' := by
  rw [StateT.run_bind, h]
  rfl

variable (disk : Disk) (file : Location)

theorem Disk.run_leadsTo (wanted : EntryKind → Bool) :
    (Disk.access.leadsTo wanted file).run disk = (match disk.find file with
      | .ok entry => .ok (wanted entry.kind)
      | .error fault => if fault.meansAbsent then .ok false else .error fault, disk) := by
  have hkind : (Disk.access.kind file).run disk = ((disk.find file).map DiskEntry.kind, disk) := rfl
  unfold Access.leadsTo
  rw [run_bind_of hkind]
  cases disk.find file <;> rfl

theorem Disk.run_read : (Disk.access.read file).run disk = (disk.read file, disk) := rfl

/-- What is at a location, as a theme. -/
def ThemeFile.loaded : Except (Failure ThemeFileProblem) LinkedTree :=
  match disk.find file with
  | .ok (.file bytes) => ofBytes (formatOf file) bytes
  | .ok .directory => .error (.problem (.unreadable .isDirectory))
  | .error fault =>
    if fault.meansAbsent then .error (.problem .notFound)
    else .error (.breakdown (.inaccessible file fault))

/-- What is at a location, as a manifest. -/
def Manifest.loaded : Except (Failure ManifestProblem) Manifest :=
  match disk.find file with
  | .ok (.file bytes) => ofBytes bytes
  | .ok .directory => .error (.problem (.unreadable .isDirectory))
  | .error fault =>
    if fault = .nullCharacter then .error (.breakdown (.inaccessible file fault))
    else .error (.problem (.unreadable fault))

/-- Loading a theme gives what is at the location, and writes nothing. -/
theorem ThemeFile.run_load :
    (ThemeFile.load Disk.access file).run disk = (ThemeFile.loaded disk file, disk) := by
  unfold load Access.present
  rw [run_bind_of (disk.run_leadsTo file _), loaded]
  rcases hfind : disk.find file with fault | (bytes | _)
  · cases fault <;> rfl
  · refine (run_bind_of (disk.run_read file)).trans ?_
    rw [Disk.read, hfind]
    rfl
  · refine (run_bind_of (disk.run_read file)).trans ?_
    rw [Disk.read, hfind]
    rfl

/-- Loading a manifest gives what is at the location, and writes nothing. -/
theorem Manifest.run_load :
    (Manifest.load Disk.access file).run disk = (Manifest.loaded disk file, disk) := by
  unfold load
  rw [run_bind_of (disk.run_read file), Disk.read, loaded]
  rcases disk.find file with fault | (bytes | _)
  · cases fault <;> rfl
  · rfl
  · rfl

variable {disk file}

theorem ThemeFile.loaded_of_find {bytes : List UInt8} (h : disk.find file = .ok (.file bytes)) :
    ThemeFile.loaded disk file = ofBytes (formatOf file) bytes := by
  rw [loaded, h]

theorem Manifest.loaded_of_find {bytes : List UInt8} (h : disk.find file = .ok (.file bytes)) :
    Manifest.loaded disk file = ofBytes bytes := by
  rw [loaded, h]

/-- A breakdown over a location, not over what is there. -/
def Breakdown.IsOfLocation (b : Breakdown) : Prop := ∃ file fault, b = .inaccessible file fault

/-- Where a file can be read if it is one, only its location is broken down over. -/
theorem ThemeFile.isOfLocation_of_loaded
    (h : ∀ bytes, disk.find file = .ok (.file bytes) → IsReadable (formatOf file) bytes)
    {b : Breakdown} (hb : ThemeFile.loaded disk file = .error (.breakdown b)) :
    b.IsOfLocation := by
  rcases hfind : disk.find file with fault | (bytes | _)
  · rw [loaded, hfind] at hb
    dsimp only at hb
    split at hb
    · cases hb
    · cases hb
      exact ⟨file, fault, rfl⟩
  · rw [loaded_of_find hfind] at hb
    exact absurd hb (isReported_ofBytes_iff.mpr (h bytes hfind) b)
  · rw [loaded, hfind] at hb
    cases hb

/-- Where a file can be read if it is one, only its location is broken down over. -/
theorem Manifest.isOfLocation_of_loaded
    (h : ∀ bytes, disk.find file = .ok (.file bytes) → IsReadable bytes ∧ IsSpelled bytes)
    {b : Breakdown} (hb : Manifest.loaded disk file = .error (.breakdown b)) :
    b.IsOfLocation := by
  rcases hfind : disk.find file with fault | (bytes | _)
  · rw [loaded, hfind] at hb
    dsimp only at hb
    split at hb
    · cases hb
      exact ⟨file, fault, rfl⟩
    · cases hb
  · rw [loaded_of_find hfind] at hb
    obtain ⟨hreadable, hspelled⟩ := h bytes hfind
    exact absurd hb (isReported_ofBytes hreadable hspelled b)
  · rw [loaded, hfind] at hb
    cases hb

end ThemeSheet
