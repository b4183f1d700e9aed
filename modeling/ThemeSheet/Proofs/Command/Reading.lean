import ThemeSheet.Command.Run
import ThemeSheet.Proofs.Source.Loading
import ThemeSheet.Proofs.Tree.Decidable

/-!
# Commands that read files

A command reads the manifest and then theme files, and works with what it has read. If each of the
files that are there can be read, a run breaks down only over a location, which may lead nowhere a
program can look or write, or over what is asked of the trees that have been read; never over what a
file holds.

The steps of a command that come before its work leave the disk as it is. So all files are read from
one disk, and what is known of the files on it is known of every step.

## Main definitions

* `Command.Allows`, `Command.Reads`: what a step of a command may break down over;
* `Command.FilesReadable`, the condition on the files that a command reads.

## Main results

* `Command.reads_readManifest`, `Command.reads_readTheme`, `Command.reads_readOperand`;
* `Command.allows_run`, for whole runs;
* `loading_reported`, for files on a disk and for the commands that read them.
-/

namespace ThemeSheet

/-- A breakdown over what is asked of something that has been read. -/
def Breakdown.IsOfRequest (b : Breakdown) : Prop := ∃ error, b = .request error

/-- A breakdown over a request that is refused. -/
def Breakdown.IsRefusal (b : Breakdown) : Prop := ∃ refusal, b = .request (.refused refusal)

namespace Command

/-! ### Steps -/

/-- An outcome that is no breakdown, or an allowed one. -/
def Allows {α : Type} (allowed : Breakdown → Prop) (outcome : Except Error α) : Prop :=
  ∀ b, outcome = .error (.breakdown b) → allowed b

/-- The outcome of a step of a command on a disk. -/
def outcome {α : Type} (disk : Disk) (step : ExceptT Error (StateM Disk) α) : Except Error α :=
  (step.run.run disk).1

/-- A step of a command that leaves the disk as it is and breaks down only in an allowed way. -/
structure Reads {α : Type} (allowed : Breakdown → Prop) (disk : Disk)
    (step : ExceptT Error (StateM Disk) α) : Prop where
  unchanged : (step.run.run disk).2 = disk
  allows : Allows allowed (outcome disk step)

section Steps

variable {α β : Type} {disk : Disk} {allowed allowed' : Breakdown → Prop}
  {step : ExceptT Error (StateM Disk) α} {next : α → ExceptT Error (StateM Disk) β}

theorem allows_ok (a : α) : Allows allowed (.ok a) := fun _ h => by cases h

theorem Allows.mono {result : Except Error α} (h : Allows allowed result)
    (hsub : ∀ b, allowed b → allowed' b) : Allows allowed' result :=
  fun b hb => hsub b (h b hb)

theorem Reads.mono (h : Reads allowed disk step) (hsub : ∀ b, allowed b → allowed' b) :
    Reads allowed' disk step :=
  ⟨h.unchanged, h.allows.mono hsub⟩

/-- What follows on a step runs on the disk that the step leaves. -/
theorem run_bind_ok {a : α} {after : Disk} (h : step.run.run disk = (.ok a, after)) :
    (step >>= next).run.run disk = (next a).run.run after := by
  rw [ExceptT.run_bind, run_bind_of h]

theorem run_bind_error {e : Error} {after : Disk} (h : step.run.run disk = (.error e, after)) :
    (step >>= next).run.run disk = (.error e, after) := by
  rw [ExceptT.run_bind, run_bind_of h]
  rfl

theorem Reads.run_bind (h : Reads allowed disk step) :
    (step >>= next).run.run disk = match outcome disk step with
      | .ok a => (next a).run.run disk
      | .error e => (.error e, disk) := by
  have hstep : step.run.run disk = (outcome disk step, disk) := Prod.ext rfl h.unchanged
  cases houtcome : outcome disk step with
  | ok a => exact run_bind_ok (houtcome ▸ hstep)
  | error e => exact run_bind_error (houtcome ▸ hstep)

theorem Reads.bind (h : Reads allowed disk step)
    (hnext : ∀ a, outcome disk step = .ok a → Reads allowed disk (next a)) :
    Reads allowed disk (step >>= next) where
  unchanged := by
    rw [h.run_bind]
    cases hstep : outcome disk step with
    | ok a => exact (hnext a hstep).unchanged
    | error e => rfl
  allows := by
    rw [outcome, h.run_bind]
    cases hstep : outcome disk step with
    | ok a => exact (hnext a hstep).allows
    | error e =>
      intro b hb
      cases hb
      exact h.allows b hstep

/-- A step that has nothing to do with the disk. -/
theorem reads_lift {result : Except Error α} (h : Allows allowed result) :
    Reads allowed disk (liftM result : ExceptT Error (StateM Disk) α) := by
  cases result with
  | ok a => exact ⟨rfl, allows_ok a⟩
  | error e => exact ⟨rfl, h⟩

/-- What comes of a file has its failure as an error of the command. -/
theorem run_reading {ε : Type} (asError : ε → Error) {action : StateM Disk (Except ε α)}
    {result : Except ε α} {after : Disk} (h : action.run disk = (result, after)) :
    (reading asError action).run.run disk = (result.mapError asError, after) := by
  refine (run_bind_of h).trans ?_
  cases result <;> rfl

theorem reads_reading {ε : Type} {asError : ε → Error} {read : StateM Disk (Except ε α)}
    {result : Except ε α} (h : read.run disk = (result, disk))
    (hresult : Allows allowed (result.mapError asError)) :
    Reads allowed disk (reading asError read) := by
  have hrun := run_reading asError h
  exact ⟨congrArg Prod.snd hrun, by rw [outcome, hrun]; exact hresult⟩

end Steps

/-! ### What a command reads -/

/-- Every file that a command reads can be read, if it is one. -/
structure FilesReadable (disk : Disk) (a : Arguments) : Prop where
  manifest : ∀ file bytes, outcome disk (manifestFile Disk.access a) = .ok (some file) →
    disk.find file = .ok (.file bytes) → Manifest.IsReadable bytes ∧ Manifest.IsSpelled bytes
  theme : ∀ file bytes, file ∈ (sources a).map (·.file) ∨ file ∈ a.operands.map Location.ofText →
    disk.find file = .ok (.file bytes) → ThemeFile.IsReadable (ThemeFile.formatOf file) bytes

variable {disk : Disk} {a : Arguments}

/-- The search for a manifest only reads, and may come to a location that is too long. -/
theorem run_firstWith (disk : Disk) (directories : List (List String)) :
    ∃ result, (Manifest.firstWith Disk.access directories).run disk = (result, disk) ∧
      ∀ b, result = .error b → b.IsOfLocation := by
  induction directories with
  | nil => exact ⟨.ok none, rfl, fun b h => by cases h⟩
  | cons directory rest ih =>
    obtain ⟨result, hresult, hallowed⟩ := ih
    unfold Manifest.firstWith Access.isFile
    dsimp only
    rw [run_bind_of (disk.run_leadsTo _ _)]
    split
    next fault _ => exact ⟨_, rfl, fun b h => by cases h; exact ⟨_, fault, rfl⟩⟩
    next => exact ⟨_, rfl, fun b h => by cases h⟩
    next => exact ⟨result, hresult, hallowed⟩

theorem run_locate (disk : Disk) :
    ∃ result, (Manifest.locate Disk.access ⟨.here, []⟩).run disk = (result, disk) ∧
      ∀ b, result = .error b → b.IsOfLocation := by
  have hcurrent : (Disk.access.current).run disk = (disk.current, disk) := rfl
  obtain ⟨result, hresult, hallowed⟩ :=
    run_firstWith disk (Location.ancestors ((Location.mk .here []).plain disk.current))
  refine ⟨result, ?_, hallowed⟩
  unfold Manifest.locate
  rw [if_neg (by decide), run_bind_of hcurrent]
  exact hresult

theorem reads_manifestFile : Reads Breakdown.IsOfLocation disk (manifestFile Disk.access a) := by
  unfold manifestFile
  split
  · exact ⟨rfl, allows_ok _⟩
  · obtain ⟨result, hresult, hallowed⟩ := run_locate disk
    refine reads_reading hresult fun b hb => hallowed b ?_
    cases result with
    | error b' =>
      cases hb
      rfl
    | ok file? => cases hb

theorem allows_ofManifest {α : Type} {allowed : Breakdown → Prop} {file : Location}
    {result : Except (Failure ManifestProblem) α}
    (h : ∀ b, result = .error (.breakdown b) → allowed b) :
    Allows allowed (result.mapError (.ofManifest file)) := by
  intro b hb
  rcases result with (p | b') | x
  all_goals cases hb
  exact h b rfl

theorem allows_ofThemeFile {α : Type} {allowed : Breakdown → Prop} {file : Location}
    {result : Except (Failure ThemeFileProblem) α}
    (h : ∀ b, result = .error (.breakdown b) → allowed b) :
    Allows allowed (result.mapError (.ofThemeFile file)) := by
  intro b hb
  rcases result with (p | b') | x
  all_goals cases hb
  exact h b rfl

/-- **The manifest is read, or what is wrong with it is reported.** -/
theorem reads_readManifest (h : FilesReadable disk a) :
    Reads Breakdown.IsOfLocation disk (readManifest Disk.access a) := by
  unfold readManifest
  refine reads_manifestFile.bind fun file? hfile => ?_
  cases file? with
  | none => exact ⟨rfl, allows_ok _⟩
  | some file =>
    exact reads_reading (Manifest.run_load disk file) (allows_ofManifest fun b hb =>
      Manifest.isOfLocation_of_loaded (h.manifest file · hfile) hb)

/-- **The operand is read, or what is wrong with it is reported.** -/
theorem reads_readOperand (h : FilesReadable disk a) :
    Reads Breakdown.IsOfLocation disk (readOperand Disk.access a) := by
  unfold readOperand
  split
  next s rest hoperands =>
    have hfile : Location.ofText s ∈ a.operands.map Location.ofText := by
      rw [hoperands]
      exact List.mem_cons_self
    refine (reads_reading (ThemeFile.run_load disk (.ofText s)) (allows_ofThemeFile fun b hb =>
      ThemeFile.isOfLocation_of_loaded (h.theme _ · (.inr hfile)) hb)).bind
      fun tree _ => ⟨rfl, allows_ok _⟩
  next => exact ⟨rfl, fun b hb => by cases hb⟩

/-- Merging only reads, and may refuse what has been read. -/
theorem run_mergeInto (blocks : List String) {list : List ThemeFile.Source}
    (h : ∀ source ∈ list, ∀ bytes, disk.find source.file = .ok (.file bytes) →
      ThemeFile.IsReadable (ThemeFile.formatOf source.file) bytes) (theme : Theme) :
    ∃ result, (ThemeFile.mergeInto Disk.access blocks theme list).run disk = (result, disk) ∧
      ∀ file b, result = .error (file, .breakdown b) → b.IsOfLocation ∨ b.IsRefusal := by
  induction list generalizing theme with
  | nil => exact ⟨.ok theme, rfl, fun _ _ hb => by cases hb⟩
  | cons source rest ih =>
    obtain ⟨hsource, hrest⟩ := List.forall_mem_cons.mp h
    unfold ThemeFile.mergeInto
    rw [run_bind_of (ThemeFile.run_load disk source.file)]
    split
    next failure hfailure =>
      refine ⟨_, rfl, fun file b hb => .inl ?_⟩
      cases hb
      exact ThemeFile.isOfLocation_of_loaded hsource hfailure
    next tree _ =>
      split
      next refusal _ =>
        refine ⟨_, rfl, fun file b hb => .inr ?_⟩
        cases hb
        exact ⟨refusal, rfl⟩
      next merged _ => exact ih hrest merged

/-- **The theme is read and merged, or what is wrong with a file is reported.** -/
theorem reads_readTheme (h : FilesReadable disk a) (blocks : List String) :
    Reads (fun b => b.IsOfLocation ∨ b.IsRefusal) disk (readTheme Disk.access a blocks) := by
  have hsources : ∀ source ∈ sources a, ∀ bytes, disk.find source.file = .ok (.file bytes) →
      ThemeFile.IsReadable (ThemeFile.formatOf source.file) bytes := fun source hsource bytes =>
    h.theme source.file bytes (.inl (List.mem_map_of_mem hsource))
  obtain ⟨result, hresult, hallowed⟩ :=
    run_mergeInto blocks hsources (.compile blocks .default .emptyMap)
  unfold readTheme
  split
  · exact ⟨rfl, fun b hb => by cases hb⟩
  · refine reads_reading hresult fun b hb => ?_
    rcases result with ⟨file, p | b'⟩ | theme
    all_goals cases hb
    exact hallowed file b rfl

/-! ### Whole commands -/

/-- What a run leaves behind that ends with a result. -/
def ended : Except Error Outcome → Outcome
  | .ok result => result
  | .error e => .ofError e

/-- What a run ends with is no breakdown, or an allowed one. -/
def Ends (allowed : Breakdown → Prop) (result : Except Error Outcome) : Prop :=
  ∀ b, (ended result).breakdown = some b → allowed b

theorem breakdown_ofError {e : Error} {b : Breakdown} :
    (Outcome.ofError e).breakdown = some b ↔ e = .breakdown b := by
  cases e <;> simp [Outcome.ofError]

theorem Allows.ends_error {allowed : Breakdown → Prop} {e : Error} {α : Type}
    (h : Allows allowed (.error e : Except Error α)) : Ends allowed (.error e) := fun b hb =>
  h b (congrArg Except.error (breakdown_ofError.mp hb))

theorem Reads.ends_bind {α : Type} {allowed : Breakdown → Prop}
    {step : ExceptT Error (StateM Disk) α} {next : α → ExceptT Error (StateM Disk) Outcome}
    (h : Reads allowed disk step) (hnext : ∀ a, Ends allowed (outcome disk (next a))) :
    Ends allowed (outcome disk (step >>= next)) := by
  rw [outcome, h.run_bind]
  have hallows := h.allows
  cases hstep : outcome disk step with
  | ok a => exact hnext a
  | error e =>
    rw [hstep] at hallows
    exact hallows.ends_error

theorem run_write (disk : Disk) (location : Location) (content : List UInt8) :
    (Disk.access.write location content).run disk = match disk.write location content with
      | .ok written => (.ok (), written)
      | .error fault => (.error fault, disk) := by
  show StateT.run (match disk.write location content with
    | .ok written => do set written; return .ok ()
    | .error fault => return .error fault : StateM Disk (Except AccessFault Unit)) disk = _
  split <;> rfl

/-- Giving a text out breaks down only over the location it is written to. -/
theorem ends_emit (text : String) :
    Ends Breakdown.IsOfLocation (outcome disk (emit Disk.access a text)) := by
  unfold emit
  cases a.last? .output with
  | none => exact fun b hb => by cases hb
  | some s =>
    have hwrite := run_write disk (.ofText s) text.toUTF8.toList
    intro b hb
    rw [outcome] at hb
    cases hdisk : disk.write (.ofText s) text.toUTF8.toList with
    | ok written =>
      rw [hdisk] at hwrite
      rw [run_bind_ok (run_reading _ hwrite)] at hb
      cases hb
    | error fault =>
      rw [hdisk] at hwrite
      rw [run_bind_error (run_reading _ hwrite)] at hb
      cases hb
      exact ⟨.ofText s, fault, rfl⟩

theorem allows_ofRequest {α : Type} {result : Except RequestError α} :
    Allows Breakdown.IsOfRequest (Error.ofRequest result) := by
  intro b hb
  cases result with
  | ok a => cases hb
  | error e =>
    cases hb
    exact ⟨e, rfl⟩

theorem allows_readThrough {α : Type} {allowed : Breakdown → Prop} {reach : Reach}
    {step : Value → Except Error α} (h : ∀ tree, Allows allowed (step tree)) (tree : Value) :
    Allows allowed (tree.readThrough reach step) := by
  intro b hb
  unfold Value.readThrough at hb
  split at hb
  · rcases Result.error_of_bind hb with hb | ⟨_, -, hb⟩
    · exact h tree b hb
    · exact h _ b hb
  · exact h tree b hb

/-- **A command breaks down only over a location or over what is asked of what it has read.** -/
theorem ends_perform (h : FilesReadable disk a) (command : Name) :
    Ends (fun b => b.IsOfLocation ∨ b.IsOfRequest)
      (outcome disk (perform Disk.access command a)) := by
  have htext : ∀ {result : Except Error String}, Allows Breakdown.IsOfRequest result →
      Ends (fun b => b.IsOfLocation ∨ b.IsOfRequest)
        (outcome disk (do emit Disk.access a (← liftM result))) := fun hresult =>
    (reads_lift (hresult.mono fun _ => .inr)).ends_bind fun text b hb => .inl (ends_emit text b hb)
  have htheme : ∀ blocks, Reads (fun b => b.IsOfLocation ∨ b.IsOfRequest) disk
      (readTheme Disk.access a blocks) := fun blocks =>
    (reads_readTheme h blocks).mono fun b =>
      Or.imp_right fun ⟨refusal, hb⟩ => ⟨.refused refusal, hb⟩
  have hoperand : Reads (fun b => b.IsOfLocation ∨ b.IsOfRequest) disk
      (readOperand Disk.access a) := (reads_readOperand h).mono fun _ => .inl
  unfold perform
  refine ((reads_readManifest h).mono fun _ => .inl).ends_bind fun manifest => ?_
  dsimp only
  cases command with
  | stylesheet => exact (htheme _).ends_bind fun theme => htext allows_ofRequest
  | filters => exact (htheme _).ends_bind fun theme => htext allows_ofRequest
  | settings =>
    exact (htheme _).ends_bind fun theme =>
      htext (allows_readThrough (fun tree => allows_ofRequest) _)
  | templates => exact hoperand.ends_bind fun tree => htext allows_ofRequest
  | sanitize =>
    refine hoperand.ends_bind fun tree => ?_
    refine (reads_lift (Allows.mono allows_ofRequest fun _ => .inr)).ends_bind fun safe => ?_
    exact htext (allows_readThrough (fun tree => allows_ofRequest) _)

/-- Arguments are broken down over only if they hold a location that no disk can have. -/
theorem allows_parse (words : List String) : Allows Breakdown.IsOfLocation (parse words) := by
  unfold parse
  split
  · exact fun b hb => by cases hb
  · split
    · exact fun b hb => by cases hb
    · split
      · exact fun b hb => by cases hb
      · split
        next file _ => exact fun b hb => by cases hb; exact ⟨file, _, rfl⟩
        next =>
          dsimp only
          split
          · exact fun b hb => by cases hb
          · split <;> exact fun b hb => by cases hb

/-- **A run breaks down only over a location or over what is asked of what it has read.** -/
theorem ends_run {words : List String}
    (h : ∀ command a, parse words = .ok (command, a) → FilesReadable disk a) {b : Breakdown}
    (hb : ((run Disk.access words).run disk).1.breakdown = some b) :
    b.IsOfLocation ∨ b.IsOfRequest := by
  unfold run at hb
  have hparse := allows_parse words
  rcases hwords : parse words with e | ⟨command, a⟩
  · rw [hwords] at hparse hb
    exact .inl (hparse.ends_error b hb)
  · rw [hwords] at hb
    refine ends_perform (h command a hwords) command b ?_
    rcases hrun : (perform Disk.access command a).run.run disk with ⟨e | result, after⟩
    all_goals
      dsimp only at hb
      rw [run_bind_of hrun] at hb
      rw [outcome, hrun]
      exact hb

end Command

/-- **Whether files are read as text decides whether loading them is reported.** Whatever bytes a
file has, and whatever its extension is:

* loading it as a theme leaves the disk as it is and gives a mapping, a problem to be reported, or a
  breakdown, and the latter exactly if the bytes are no text or the parser breaks down over it;
* loading it as a manifest does so likewise, but that a section or an origin without a spelling is
  broken down over, too.

A command that reads no other files than such as are loaded without a breakdown does not break down
while it loads them. It may still break down over a location, or over what is asked of the trees
that have been loaded, merging them included. -/
theorem loading_reported (disk : Disk) :
    (∀ file bytes, disk.find file = .ok (.file bytes) →
      ∃ result, (ThemeFile.load Disk.access file).run disk = (result, disk) ∧
        (∀ t, result = .ok t → t.tree.isMap = true) ∧
        (Failure.IsReported result ↔
          ThemeFile.IsReadable (ThemeFile.formatOf file) bytes)) ∧
    (∀ file bytes, disk.find file = .ok (.file bytes) →
      ∃ result, (Manifest.load Disk.access file).run disk = (result, disk) ∧
        (Failure.IsReported result → Manifest.IsReadable bytes) ∧
        (Manifest.IsReadable bytes ∧ Manifest.IsSpelled bytes → Failure.IsReported result)) ∧
    (∀ a : Command.Arguments, Command.FilesReadable disk a →
      Command.Reads Breakdown.IsOfLocation disk (Command.readManifest Disk.access a) ∧
      Command.Reads Breakdown.IsOfLocation disk (Command.readOperand Disk.access a) ∧
      ∀ blocks, Command.Reads (fun b => b.IsOfLocation ∨ b.IsRefusal) disk
        (Command.readTheme Disk.access a blocks)) ∧
    (∀ words : List String,
      (∀ command a, Command.parse words = .ok (command, a) → Command.FilesReadable disk a) →
      ∀ b, ((Command.run Disk.access words).run disk).1.breakdown = some b →
        b.IsOfLocation ∨ b.IsOfRequest) := by
  refine ⟨fun file bytes hfind => ?_, fun file bytes hfind => ?_, fun a h => ?_,
    fun words h b hb => Command.ends_run h hb⟩
  · refine ⟨_, ThemeFile.run_load disk file, ?_⟩
    rw [ThemeFile.loaded_of_find hfind]
    exact ⟨fun t => ThemeFile.isMap_of_ofBytes, ThemeFile.isReported_ofBytes_iff⟩
  · refine ⟨_, Manifest.run_load disk file, ?_⟩
    rw [Manifest.loaded_of_find hfind]
    exact ⟨Manifest.isReadable_of_isReported, fun h => Manifest.isReported_ofBytes h.1 h.2⟩
  · exact ⟨Command.reads_readManifest h, Command.reads_readOperand h, Command.reads_readTheme h⟩

/-- A directory with a theme and a manifest, which asks for a section that there is not. -/
theorem loading_reported_directory :
    let bytes := fun s : String => s.toList.map fun c => UInt8.ofNat c.toNat
    let theme := bytes "\x7b\x7d"
    let manifest := bytes "[stylesheet]\ntypes=['x']"
    let disk : Disk :=
      { entries := [(["a.json"], .file theme), (["themejson.toml"], .file manifest)]
        current := [] }
    disk.find (.ofText "a.json") = .ok (.file theme) ∧
      disk.find (.ofText "themejson.toml") = .ok (.file manifest) ∧
      ThemeFile.IsReadable .json theme ∧ Manifest.IsReadable manifest ∧
      Manifest.IsSpelled manifest ∧
      (∃ result, (ThemeFile.load Disk.access (.ofText "a.json")).run disk = (result, disk) ∧
        Failure.IsReported result) ∧
      (∃ result, (Manifest.load Disk.access (.ofText "themejson.toml")).run disk = (result, disk) ∧
        Failure.IsReported result) ∧
      (∀ command a, Command.parse ["sanitize", "a.json"] = .ok (command, a) →
        Command.FilesReadable disk a ∧
        Command.Reads Breakdown.IsOfLocation disk (Command.readManifest Disk.access a)) ∧
      ∀ b, ((Command.run Disk.access ["sanitize", "a.json"]).run disk).1.breakdown = some b →
        b.IsOfLocation ∨ b.IsOfRequest := by
  intro bytes theme manifest disk
  have htheme : disk.find (.ofText "a.json") = .ok (.file theme) := by rfl
  have hmanifest : disk.find (.ofText "themejson.toml") = .ok (.file manifest) := by rfl
  have hthemeText : Text.ofBytes theme = .ok "\x7b\x7d".toList := by decide
  have hmanifestText : Text.ofBytes manifest = .ok "[stylesheet]\ntypes=['x']".toList := by decide
  have hentries : Toml.read "[stylesheet]\ntypes=['x']".toList =
      .ok [(.text "stylesheet", .map [(.text "types", .list [.text "x"])])] := by decide +kernel
  have hread : ThemeFile.IsReadable .json theme := by
    refine ⟨_, hthemeText, .inr fun digits h => ?_⟩
    have htree : (Json.read "\x7b\x7d".toList).isOk = true := by decide
    rw [h] at htree
    cases htree
  have hreadManifest : Manifest.IsReadable manifest :=
    ⟨_, hmanifestText, fun digits h => by rw [hentries] at h; cases h⟩
  have hspelled : Manifest.IsSpelled manifest := by
    intro text es htext hes v hv
    cases hmanifestText.symm.trans htext
    cases hentries.symm.trans hes
    obtain rfl := List.mem_singleton.mp hv
    exact ⟨"x", rfl⟩
  have hfiles : ∀ command a, Command.parse ["sanitize", "a.json"] = .ok (command, a) →
      Command.FilesReadable disk a := by
    intro command a ha
    have hparse : Command.parse ["sanitize", "a.json"] =
      .ok (.sanitize, { operands := ["a.json"] }) := by decide
    cases hparse.symm.trans ha
    refine ⟨fun file bytes hfile hfind => ?_, fun file bytes hfile hfind => ?_⟩
    · have hlocated : Command.outcome disk (Command.manifestFile Disk.access
          { operands := ["a.json"] }) = .ok (some ⟨.root, ["themejson.toml"]⟩) := by decide
      cases hlocated.symm.trans hfile
      cases hmanifest.symm.trans hfind
      exact ⟨hreadManifest, hspelled⟩
    · obtain rfl : file = .ofText "a.json" := by
        rcases hfile with hfile | hfile
        · cases hfile
        · exact List.mem_singleton.mp hfile
      cases htheme.symm.trans hfind
      exact hread
  obtain ⟨htheme', hmanifest', hcommands, hruns⟩ := loading_reported disk
  obtain ⟨result, hrun, -, hreported⟩ := htheme' _ theme htheme
  obtain ⟨result', hrun', -, hreported'⟩ := hmanifest' _ manifest hmanifest
  exact ⟨htheme, hmanifest, hread, hreadManifest, hspelled,
    ⟨result, hrun, hreported.mpr hread⟩, ⟨result', hrun', hreported' ⟨hreadManifest, hspelled⟩⟩,
    fun command a h => ⟨hfiles command a h, (hcommands a (hfiles command a h)).1⟩,
    hruns ["sanitize", "a.json"] hfiles⟩

/-- A byte that begins no character stops whoever reads the file, and no report is made. -/
theorem loading_breaks_down_undecodable :
    let disk : Disk := { entries := [(["a.json"], .file [0xff])], current := [] }
    let fault : Utf8.Fault := ⟨0, 1, 0xff, .invalidStart⟩
    disk.find (.ofText "a.json") = .ok (.file [0xff]) ∧
      (ThemeFile.load Disk.access (.ofText "a.json")).run disk =
        (.error (.breakdown (.undecodable fault)), disk) ∧
      (Manifest.load Disk.access (.ofText "a.json")).run disk =
        (.error (.breakdown (.undecodable fault)), disk) ∧
      ((Command.run Disk.access ["sanitize", "a.json"]).run disk).1.breakdown =
        some (.undecodable fault) ∧
      ((Command.run Disk.access ["stylesheet", "--theme", "a.json"]).run disk).1.breakdown =
        some (.undecodable fault) ∧
      ((Command.run Disk.access ["settings", "--manifest", "a.json"]).run disk).1.breakdown =
        some (.undecodable fault) := by
  refine ⟨by rfl, by rfl, by rfl, by decide, by decide, by decide⟩

end ThemeSheet
