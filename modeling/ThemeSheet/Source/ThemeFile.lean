import ThemeSheet.Json.Reader
import ThemeSheet.Schema.SharedMigration
import ThemeSheet.Source.Report
import ThemeSheet.Theme.SharedMerge
import ThemeSheet.Yaml.Reader

/-!
# Theme files

A theme file holds a tree in JSON, or in YAML if its extension says so. Nothing is checked of the
tree but that it is a mapping; a file that is blank or holds null is the empty mapping.

Several files are merged in the order in which they are given, each with its origin, into a theme
that starts empty.

## Main definitions

* `ThemeFileProblem`, `ThemeFileProblem.report`;
* `ThemeFile.ofText`, `ThemeFile.ofBytes`, the tree of a file;
* `ThemeFile.load`, `ThemeFile.loadMerged`, the reading of files from a disk.
-/

namespace ThemeSheet

/-- What is wrong with a theme file. -/
inductive ThemeFileProblem where
  | notFound
  | unreadable (fault : AccessFault)
  | invalidYaml (fault : Yaml.Fault)
  | invalidJson (fault : Json.Fault) (place : Json.Place)
  /-- The tree is a value of another kind than a mapping. -/
  | notMapping (kind : String)
deriving DecidableEq, Repr

namespace ThemeFileProblem

/-- The wording of a problem of a file. -/
def message (file : Location) : ThemeFileProblem → String
  | .notFound => "Theme file not found"
  | .unreadable fault => "Cannot read theme file: " ++ fault.message file
  | .invalidYaml fault => "Invalid YAML: " ++ fault.wording
  | .invalidJson fault place => "Invalid JSON: " ++ (Json.Error.malformed fault place).message
  | .notMapping kind => "Expected a mapping at the top level, got " ++ kind

/-- The report of a problem of a file. -/
def report (file : Location) (problem : ThemeFileProblem) : FileReport :=
  { file, message := problem.message file }

end ThemeFileProblem

namespace ThemeFile

/-- The formats of theme files. -/
inductive Format where
  | json
  | yaml
deriving DecidableEq, Repr

/-- The format of a file, by its extension. -/
def formatOf (file : Location) : Format :=
  let extension := String.ofList (Text.lowerAscii file.extension.toList)
  if extension = ".yaml" ∨ extension = ".yml" then .yaml else .json

/-- The breakdown that a mishap is. -/
def ofMishap : Yaml.Mishap → Breakdown
  | .numeralTooLong digits => .numeralTooLong digits
  | .noDigits base => .noDigits base
  | .noCharacter code => .noCharacter code
  | .noMoment fault => .noMoment fault
  | .powerTooLarge => .powerTooLarge

/-- What a text in a format says. -/
def valueOf (format : Format) (text : List Char) : Except (Failure ThemeFileProblem) LinkedTree :=
  match format with
  | .yaml => match Yaml.read text with
    | .ok t => .ok t
    | .error (.malformed fault) => .error (.problem (.invalidYaml fault))
    | .error (.unprepared mishap) => .error (.breakdown (ofMishap mishap))
  | .json => match Json.read text with
    | .ok tree => .ok { tree }
    | .error (.malformed fault place) => .error (.problem (.invalidJson fault place))
    | .error (.numeralTooLong digits) => .error (.breakdown (.numeralTooLong digits))

/-- The empty tree. -/
def empty : LinkedTree := { tree := .emptyMap }

/-- What has been read as the tree of a theme, which has a root of its own. -/
def rooted (t : LinkedTree) : Except (Failure ThemeFileProblem) LinkedTree :=
  match t.tree with
  | .null => .ok empty
  | .map es mark => .ok (t.withOwnRoot es mark)
  | v => .error (.problem (.notMapping v.kind))

/-- The tree of a text in a format. -/
def ofText (format : Format) (text : List Char) : Except (Failure ThemeFileProblem) LinkedTree := do
  if text.all Text.isBlank then return empty
  else rooted (← valueOf format text)

/-- The tree of the bytes of a file in a format. -/
def ofBytes (format : Format) (bytes : List UInt8) :
    Except (Failure ThemeFileProblem) LinkedTree := do
  ofText format (← Failure.decoded bytes)

/-! ### Files on a disk -/

variable {m : Type → Type} [Monad m]

/-- The tree of a file on a disk. -/
def load (access : Access m) (file : Location) :
    m (Except (Failure ThemeFileProblem) LinkedTree) := do
  match ← access.present file with
  | .error fault => return .error (.breakdown (.inaccessible file fault))
  | .ok false => return .error (.problem .notFound)
  | .ok true =>
    match ← access.read file with
    | .error fault => return .error (.problem (.unreadable fault))
    | .ok bytes => return ofBytes (formatOf file) bytes

/-- A file and the origin of its tree. -/
structure Source where
  file : Location
  origin : Origin
deriving DecidableEq, Repr

/-- The tree of a file brought to the current version, written out as far as a theme looks. -/
def current (t : LinkedTree) : Value := (Migration.runShared t).writtenOut Theme.reach

/-- Merges the trees of files into a theme, in their order. The first failure ends it, with the file
that it is about. -/
def mergeInto (access : Access m) (blocks : List String) :
    Theme → List Source → m (Except (Location × Failure ThemeFileProblem) Theme)
  | theme, [] => return .ok theme
  | theme, source :: rest => do
    match ← load access source.file with
    | .error failure => return .error (source.file, failure)
    | .ok tree =>
      match theme.mergeShared (.compile blocks source.origin (current tree)) with
      | .error refusal => return .error (source.file, .breakdown (.request (.refused refusal)))
      | .ok merged => mergeInto access blocks merged rest

/-- The theme of several files. -/
def loadMerged (access : Access m) (blocks : List String) (sources : List Source) :
    m (Except (Location × Failure ThemeFileProblem) Theme) :=
  mergeInto access blocks (.compile blocks .default .emptyMap) sources

end ThemeFile

end ThemeSheet
