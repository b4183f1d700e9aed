import ThemeSheet.Command.Arguments
import ThemeSheet.Json.Writer
import ThemeSheet.Schema.Theme
import ThemeSheet.Source.Manifest
import ThemeSheet.Source.ThemeFile
import ThemeSheet.Text.ControlSequence
import ThemeSheet.Theme.Cleaning
import ThemeSheet.Theme.Template

/-!
# Commands

The commands compile theme files and print what they compile to, or write it to a file. A command
reads the manifest first, which tells it the block types, and then the theme files. Its text goes to
the output, and what it says about its work to the diagnostics.

A command runs over any `Access` to files, so it is a function of a disk as well as a program. What
it writes to a file is written as it is; what it shows loses its control sequences.

## Main definitions

* `Name`, the commands;
* `Outcome`, what a run leaves behind;
* `run`.
-/

namespace ThemeSheet.Command

/-- The commands. -/
inductive Name where
  | stylesheet
  | filters
  | settings
  | templates
  | sanitize
deriving DecidableEq, Repr

namespace Name

/-- All commands. -/
def all : List Name := [.stylesheet, .filters, .settings, .templates, .sanitize]

/-- The word for a command. -/
def text : Name → String
  | .stylesheet => "stylesheet"
  | .filters => "svg-filters"
  | .settings => "settings"
  | .templates => "templates"
  | .sanitize => "sanitize"

/-- The settings for the trees that are merged. -/
def treeSettings : List Setting := [.defaultTree, .themeTree, .customTree]

/-- The settings that a command knows. -/
def known : Name → List Setting
  | .stylesheet => treeSettings ++ [.section, .origin, .manifest, .output]
  | .filters => treeSettings ++ [.manifest, .output]
  | .settings => treeSettings ++ [.manifest]
  | .templates => [.manifest]
  | .sanitize => [.manifest, .output]

/-- How many operands a command has. -/
def operands : Name → Nat
  | .templates => 1
  | .sanitize => 1
  | _ => 0

end Name

/-- Why a command does not do its work. -/
inductive Error where
  | usage (error : UsageError)
  | noSources
  | report (report : FileReport)
  | breakdown (breakdown : Breakdown)
deriving DecidableEq, Repr

/-- What a run leaves behind, apart from the file it may write. -/
structure Outcome where
  exitCode : Nat
  output : String := ""
  diagnostics : String := ""
  breakdown : Option Breakdown := none
deriving DecidableEq, Repr

/-- A text as it is shown: without control sequences, on lines of its own. -/
def shown (text : String) : String := String.ofList (Text.plain text.toList) ++ "\n"

/-- The outcome of a run that fails. -/
def Outcome.ofError : Error → Outcome
  | .usage error => { exitCode := 2, diagnostics := shown error.message }
  | .noSources =>
    { exitCode := 1
      diagnostics := shown "Provide at least one of --default, --theme or --custom" }
  | .report report => { exitCode := 1, diagnostics := shown ("Error: " ++ report.text) }
  | .breakdown breakdown => { exitCode := 1, breakdown := some breakdown }

namespace Error

/-- A failure of a theme file. -/
def ofThemeFile (file : Location) : Failure ThemeFileProblem → Error
  | .problem p => .report (p.report file)
  | .breakdown b => .breakdown b

/-- A failure of a manifest. -/
def ofManifest (file : Location) : Failure ManifestProblem → Error
  | .problem p => .report (p.report file)
  | .breakdown b => .breakdown b

/-- The error of a request that is not answered. -/
def ofRequest {α : Type} : Except RequestError α → Except Error α
  | .ok a => .ok a
  | .error error => .error (.breakdown (.request error))

/-- The error of a refusal. -/
def ofRefusal {α : Type} (result : Except Refusal α) : Except Error α :=
  ofRequest (RequestError.lift result)

end Error

/-! ### What a command reads -/

variable {m : Type → Type} [Monad m]

/-- Something that is read, with its failure as an error of the command. -/
def reading {ε α : Type} (asError : ε → Error) (step : m (Except ε α)) : ExceptT Error m α :=
  ExceptT.mk do
    match ← step with
    | .ok a => return .ok a
    | .error failure => return .error (asError failure)

/-- Where the manifest is: where the arguments say, or in the nearest directory that has one. -/
def manifestFile (access : Access m) (a : Arguments) : ExceptT Error m (Option Location) :=
  match a.last? .manifest with
  | some s => return some (.ofText s)
  | none => reading .breakdown (Manifest.locate access ⟨.here, []⟩)

/-- The manifest that a command works with; without any it is the empty one. -/
def readManifest (access : Access m) (a : Arguments) : ExceptT Error m Manifest := do
  match ← manifestFile access a with
  | none => return {}
  | some file => reading (.ofManifest file) (Manifest.load access file)

/-- The files that a command is given, the least specific origin first. -/
def sources (a : Arguments) : List ThemeFile.Source :=
  [(Setting.defaultTree, Origin.default), (.themeTree, .theme), (.customTree, .custom)].filterMap
    fun entry => (a.last? entry.1).map fun s => ⟨.ofText s, entry.2⟩

/-- The theme of the files that a command is given. -/
def readTheme (access : Access m) (a : Arguments) (blocks : List String) :
    ExceptT Error m Theme := do
  if (sources a).isEmpty then throw .noSources
  reading (fun e => .ofThemeFile e.1 e.2) (ThemeFile.loadMerged access blocks (sources a))

/-- The tree of the file that is the operand of a command, brought to the current version. -/
def readOperand (access : Access m) (a : Arguments) : ExceptT Error m Value := do
  match a.operands with
  | s :: _ =>
    let tree ← reading (.ofThemeFile (.ofText s)) (ThemeFile.load access (.ofText s))
    return ThemeFile.current tree
  | [] => throw (.usage .missingOperand)

/-! ### What a command writes -/

/-- Gives a text out: to the file that is asked for, or to the output. -/
def emit (access : Access m) (a : Arguments) (text : String) : ExceptT Error m Outcome := do
  match a.last? .output with
  | none => return { exitCode := 0, output := shown text }
  | some s =>
    let file := Location.ofText s
    reading (fun fault => .breakdown (.inaccessible file fault))
      (access.write file text.toUTF8.toList)
    return { exitCode := 0, diagnostics := shown ("✓ Wrote " ++ file.text) }

/-! ### The commands -/

/-- The names that are asked for, or those of the manifest. -/
def orDefault (asked default : List String) : List String :=
  if asked.isEmpty then default else asked

/-- The stylesheet of a theme, as the arguments and the manifest ask for it. -/
def stylesheetText (a : Arguments) (manifest : Manifest) (table : BlockTable) (theme : Theme) :
    Except Error String :=
  let sections := orDefault (a.values .section) (manifest.sections.map StyleSection.name)
  let origins := orDefault (a.values .origin) (manifest.origins.map Origin.name)
  let asked := StyleSection.ordered sections
  Error.ofRequest (theme.readThrough (Theme.stylesheetReach asked) fun theme =>
    theme.answer table ⟨asked, false⟩ { names := origins })

/-- The duotone filters of a theme, as the manifest asks for them. -/
def filtersText (manifest : Manifest) (table : BlockTable) (theme : Theme) : Except Error String :=
  Error.ofRequest (theme.readThrough Theme.filterReach fun theme =>
    theme.answerFilters table { names := manifest.origins.map Origin.name })

/-- A mapping of names to values. -/
def named (entries : List (String × Value)) : Value := .map (entries.map fun e => (.text e.1, e.2))

/-- The templates that a theme declares. -/
def templatesValue (theme : Theme) : Value :=
  named
    [("customTemplates", named (theme.customTemplates.map fun e =>
        (e.1, named [("title", .text e.2.title), ("postTypes", .list (e.2.postTypes.map .text))]))),
     ("templateParts", named (theme.templateParts.map fun e =>
        (e.1, named [("title", .text e.2.title), ("area", .text e.2.area)])))]

/-- A value as the text that commands print. -/
def jsonText (v : Value) : Except Error String := Error.ofRefusal (Json.indented v)

/-- Runs a command. -/
def perform (access : Access m) (command : Name) (a : Arguments) : ExceptT Error m Outcome := do
  let manifest ← readManifest access a
  let table := manifest.registry.table elements
  match command with
  | .stylesheet =>
    let theme ← readTheme access a table.names
    emit access a (← stylesheetText a manifest table theme)
  | .filters =>
    let theme ← readTheme access a table.names
    emit access a (← filtersText manifest table theme)
  | .settings =>
    let theme ← readTheme access a table.names
    emit access a (← theme.readThrough Theme.settingsReach fun theme => jsonText theme.settings)
  | .templates =>
    let tree ← readOperand access a
    emit access a (← jsonText (templatesValue (.compile table.names .theme tree)))
  | .sanitize =>
    let tree ← readOperand access a
    let safe ← Error.ofRefusal
      (tree.readThrough Theme.cleaningReach (Theme.clean table Css.isSafeDeclaration))
    emit access a (← safe.readThrough .whole jsonText)

/-- Whether a word asks for more to be said, once or several times. -/
def isVerbose (word : String) : Bool :=
  word = "--verbose" || match word.toList with
    | '-' :: 'v' :: rest => rest.all (· = 'v')
    | _ => false

/-- The words from the command on. What comes before it can only ask for more to be said, which
changes nothing; two dashes end that. -/
def fromCommand : List String → List String
  | [] => []
  | word :: rest =>
    if word = "--" then rest else if isVerbose word then fromCommand rest else word :: rest

/-- The locations among the arguments of a command. Of several values of a setting the last one
counts, and operands beyond those of the command do not. -/
def locations (command : Name) (a : Arguments) : List Location :=
  let settings := Setting.all.filter Setting.isLocation
  (settings.filterMap a.last? ++ a.operands.take command.operands).map Location.ofText

/-- The command that a line of arguments calls for, with its arguments. A location with a null
character is found out before the operands are counted. -/
def parse (words : List String) : Except Error (Name × Arguments) := do
  match fromCommand words with
  | [] => throw (.usage .noSuchCommand)
  | word :: rest =>
    match Name.all.find? fun command => command.text = word with
    | none => throw (.usage .noSuchCommand)
    | some command =>
      match Arguments.ofList command.known rest with
      | .error error => throw (.usage error)
      | .ok a =>
        match (locations command a).find? fun file => file.fault? = some .nullCharacter with
        | some file => throw (.breakdown (.inaccessible file .nullCharacter))
        | none =>
          if a.operands.length < command.operands then throw (.usage .missingOperand)
          if command.operands < a.operands.length then throw (.usage .extraOperand)
          return (command, a)

/-- Runs a line of arguments. -/
def run (access : Access m) (arguments : List String) : m Outcome := do
  match parse arguments with
  | .error error => return .ofError error
  | .ok (command, a) =>
    match ← (perform access command a).run with
    | .ok outcome => return outcome
    | .error error => return .ofError error

end ThemeSheet.Command
