import ThemeSheet.Blocks.Registry
import ThemeSheet.Source.Report
import ThemeSheet.Toml.Reader

/-!
# The manifest

A manifest says which block types there are, and which sections and origins a stylesheet has if
nothing else is asked for. It is a TOML file, found in the working directory or the nearest
directory above it that has one.

A block has to have a name. What it says of its selector and of its duotone target becomes part of
what it supports, unless it counts as false.

## Main definitions

* `Manifest`, `Manifest.BlockDeclaration`;
* `ManifestProblem`, `ManifestProblem.report`;
* `Manifest.ofEntries`, `Manifest.ofBytes`, `Manifest.load`, `Manifest.locate`.
-/

namespace ThemeSheet

/-- A block type as a manifest declares it. What is not declared is null. -/
structure Manifest.BlockDeclaration where
  name : String
  selector : Value := .null
  duotone : Value := .null
deriving Repr

/-- What a manifest says. -/
structure Manifest where
  blocks : List Manifest.BlockDeclaration := []
  sections : List StyleSection := StyleSection.all
  origins : List Origin := Origin.all
deriving Repr

/-- What is wrong with a manifest. -/
inductive ManifestProblem where
  | unreadable (fault : AccessFault)
  | invalidToml (fault : Toml.Fault)
  | blocksNotArray
  | stylesheetNotTable
  | blockWithoutName (index : Nat)
  | sectionsNotArray
  | unknownSection (spelling : String)
  | originsNotArray
  | unknownOrigin (spelling : String)
deriving DecidableEq, Repr

namespace ManifestProblem

/-- The wording of a problem of a manifest. -/
def message (file : Location) : ManifestProblem → String
  | .unreadable fault => "Cannot read manifest: " ++ fault.message file
  | .invalidToml fault => "Invalid TOML: " ++ fault.wording
  | .blocksNotArray => "'blocks' must be an array of tables"
  | .stylesheetNotTable => "'stylesheet' must be a table"
  | .blockWithoutName _ => "Block entry needs a name"
  | .sectionsNotArray => "'types' must be an array"
  | .unknownSection spelling => "Unknown stylesheet type '" ++ spelling ++ "'"
  | .originsNotArray => "'origins' must be an array"
  | .unknownOrigin spelling => "Unknown origin '" ++ spelling ++ "'"

/-- The key that a problem is about. -/
def key? : ManifestProblem → Option String
  | .unreadable _ => none
  | .invalidToml _ => none
  | .blocksNotArray => some "blocks"
  | .stylesheetNotTable => some "stylesheet"
  | .blockWithoutName index => some ("blocks." ++ toString index)
  | .sectionsNotArray => some "stylesheet.types"
  | .unknownSection _ => some "stylesheet.types"
  | .originsNotArray => some "stylesheet.origins"
  | .unknownOrigin _ => some "stylesheet.origins"

/-- The report of a problem of a manifest. -/
def report (file : Location) (problem : ManifestProblem) : FileReport :=
  { file, key := problem.key?, message := problem.message file }

end ManifestProblem

namespace Manifest

/-- The name of the file that a manifest is in. -/
def fileName : String := "themejson.toml"

/-! ### Blocks -/

namespace BlockDeclaration

/-- What a declared block supports. -/
def supports (block : BlockDeclaration) : Entries :=
  (if block.selector.truthy then [(.text "__experimentalSelector", block.selector)] else []) ++
    (if block.duotone.truthy then
      [(.text "color", .map [(.text "__experimentalDuotone", block.duotone)])] else [])

/-- The block type that is declared. -/
def blockType (block : BlockDeclaration) : BlockType := ⟨block.name, block.supports⟩

/-- The block that an entry declares, at an index in the list of blocks. -/
def ofValue (index : Nat) (v : Value) : Except (Failure ManifestProblem) BlockDeclaration :=
  match v.entryNamed? "name" with
  | some (.text name) =>
    if name.isEmpty then .error (.problem (.blockWithoutName index))
    else .ok { name
               selector := (v.entryNamed? "selector").getD .null
               duotone := (v.entryNamed? "duotone").getD .null }
  | _ => .error (.problem (.blockWithoutName index))

/-- The blocks that entries declare, from an index on. -/
def ofValues : Nat → List Value → Except (Failure ManifestProblem) (List BlockDeclaration)
  | _, [] => .ok []
  | index, v :: vs => do return (← ofValue index v) :: (← ofValues (index + 1) vs)

end BlockDeclaration

/-- The registry of the declared blocks. -/
def registry (manifest : Manifest) : Registry :=
  manifest.blocks.foldl (fun registry block => registry.register block.blockType) .empty

/-! ### Sections and origins -/

/-- The section that a value names. -/
def sectionOf (v : Value) : Except (Failure ManifestProblem) StyleSection :=
  match v.text?.bind fun s => StyleSection.all.find? fun part => part.name = s with
  | some part => .ok part
  | none => do throw (.problem (.unknownSection (← Failure.ofRefusal v.spelling)))

/-- The origin that a value names. -/
def originOf (v : Value) : Except (Failure ManifestProblem) Origin :=
  match v.text?.bind Origin.ofName? with
  | some origin => .ok origin
  | none => do throw (.problem (.unknownOrigin (← Failure.ofRefusal v.spelling)))

/-- The items under a name, read one by one, or a default if there is no such name. -/
def itemsOf {α : Type} (name : String) (es : Entries) (default : List α)
    (read : Value → Except (Failure ManifestProblem) α) (problem : ManifestProblem) :
    Except (Failure ManifestProblem) (List α) :=
  match Entries.named? name es with
  | none => .ok default
  | some (.list items _) => items.mapM read
  | some _ => .error (.problem problem)

/-! ### Reading -/

/-- What the entries of a manifest say. -/
def ofEntries (es : Entries) : Except (Failure ManifestProblem) Manifest := do
  let blocks ← match Entries.named? "blocks" es with
    | none => pure []
    | some (.list items _) => pure items
    | some _ => throw (.problem .blocksNotArray)
  let stylesheet ← match Entries.named? "stylesheet" es with
    | none => pure []
    | some (.map sub _) => pure sub
    | some _ => throw (.problem .stylesheetNotTable)
  let blocks ← BlockDeclaration.ofValues 0 blocks
  let sections ← itemsOf "types" stylesheet StyleSection.all sectionOf .sectionsNotArray
  let origins ← itemsOf "origins" stylesheet Origin.all originOf .originsNotArray
  return { blocks, sections, origins }

/-- What the bytes of a manifest say. -/
def ofBytes (bytes : List UInt8) : Except (Failure ManifestProblem) Manifest := do
  match Toml.read (← Failure.decoded bytes) with
  | .ok es => ofEntries es
  | .error (.malformed fault) => throw (.problem (.invalidToml fault))
  | .error (.numeralTooLong digits) => throw (.breakdown (.numeralTooLong digits))

/-! ### Manifests on a disk -/

variable {m : Type → Type} [Monad m]

/-- What a manifest on a disk says. -/
def load (access : Access m) (file : Location) : m (Except (Failure ManifestProblem) Manifest) := do
  match ← access.read file with
  | .error fault =>
    if fault = .nullCharacter then return .error (.breakdown (.inaccessible file fault))
    else return .error (.problem (.unreadable fault))
  | .ok bytes => return ofBytes bytes

/-- The first of some directories that has a manifest. -/
def firstWith (access : Access m) : List (List String) → m (Except Breakdown (Option Location))
  | [] => return .ok none
  | directory :: rest => do
    let file := (Location.mk .root directory).child fileName
    match ← access.isFile file with
    | .error fault => return .error (.inaccessible file fault)
    | .ok true => return .ok (some file)
    | .ok false => firstWith access rest

/-- The manifest of a directory, which is in it or in the nearest directory above it. The directory
need not be there, but its location has to be one that could be. -/
def locate (access : Access m) (start : Location) : m (Except Breakdown (Option Location)) := do
  if Location.holdsNull start.text then return .error (.inaccessible start .nullCharacter)
  else firstWith access (Location.ancestors (start.plain (← access.current)))

end Manifest

end ThemeSheet
