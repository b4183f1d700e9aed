import ThemeSheet.Text.Chars

/-!
# Arguments of a command

A command takes options with a value and operands, in any order. An option has a long name and
perhaps a letter. The value of a long one follows it, as the next argument or after an equals sign;
the value of a letter follows it too, or is written right behind it. Two dashes alone end the
options, and a single dash is an operand. Whatever else begins with a dash has to be an option that
the command knows.

## Main definitions

* `Setting`, `Setting.ofName?`, `Setting.ofLetter?`;
* `Arguments`, `Arguments.ofList`.
-/

namespace ThemeSheet.Command

/-- What an option sets. -/
inductive Setting where
  | defaultTree
  | themeTree
  | customTree
  | section
  | origin
  | manifest
  | output
deriving DecidableEq, Repr

namespace Setting

/-- All settings. -/
def all : List Setting :=
  [.defaultTree, .themeTree, .customTree, .section, .origin, .manifest, .output]

/-- The long name of an option. -/
def name : Setting → String
  | .defaultTree => "--default"
  | .themeTree => "--theme"
  | .customTree => "--custom"
  | .section => "--type"
  | .origin => "--origin"
  | .manifest => "--manifest"
  | .output => "--output"

/-- The letter of an option. -/
def letter? : Setting → Option Char
  | .themeTree => some 't'
  | .manifest => some 'm'
  | .output => some 'o'
  | _ => none

/-- Whether the value of an option is the location of a file. -/
def isLocation : Setting → Bool
  | .section => false
  | .origin => false
  | _ => true

end Setting

/-- The arguments of a command: the settings in the order in which they are made, and the
operands. -/
structure Arguments where
  settings : List (Setting × String) := []
  operands : List String := []
deriving DecidableEq, Repr

/-- Why arguments are not understood. -/
inductive UsageError where
  | noSuchOption
  | noValue
  | noSuchCommand
  | missingOperand
  | extraOperand
deriving DecidableEq, Repr

namespace UsageError

/-- The wording of an error. -/
def message : UsageError → String
  | .noSuchOption => "There is no such option"
  | .noValue => "An option needs a value"
  | .noSuchCommand => "There is no such command"
  | .missingOperand => "An operand is missing"
  | .extraOperand => "There is an operand too many"

end UsageError

namespace Arguments

/-- The arguments with a further setting in front. -/
def withSetting (setting : Setting) (value : String) (a : Arguments) : Arguments :=
  { a with settings := (setting, value) :: a.settings }

/-- The arguments with a further operand in front. -/
def withOperand (operand : String) (a : Arguments) : Arguments :=
  { a with operands := operand :: a.operands }

/-- All values of a setting. -/
def values (a : Arguments) (setting : Setting) : List String :=
  a.settings.filterMap fun s => if s.1 = setting then some s.2 else none

/-- The last value of a setting, which counts where only one can. -/
def last? (a : Arguments) (setting : Setting) : Option String := (a.values setting).getLast?

/-- What an argument is. -/
inductive Shape where
  /-- The end of the options. -/
  | endOfOptions
  | operand
  /-- An option, with its value if that is part of the argument. -/
  | option (setting : Setting) (value : Option String)
  | unknown

/-- What an argument is to a command that knows some settings. -/
def shapeOf (known : List Setting) (argument : String) : Shape :=
  match argument.toList with
  | ['-', '-'] => .endOfOptions
  | '-' :: c :: rest =>
    let name := String.ofList ('-' :: c :: rest.takeWhile (· ≠ '='))
    let value := (rest.dropWhile (· ≠ '=')).drop 1
    let written := rest.contains '='
    if c = '-' then
      match known.find? fun s => s.name = name with
      | some s => .option s (if written then some (String.ofList value) else none)
      | none => .unknown
    else match known.find? fun s => s.letter? = some c with
      | some s => .option s (if rest.isEmpty then none else some (String.ofList rest))
      | none => .unknown
  | _ => .operand

/-- Reads arguments for a command that knows some settings. -/
def ofList (known : List Setting) : List String → Except UsageError Arguments
  | [] => .ok {}
  | argument :: rest =>
    match shapeOf known argument with
    | .endOfOptions => .ok { operands := rest }
    | .operand => do return (← ofList known rest).withOperand argument
    | .option setting (some value) => do return (← ofList known rest).withSetting setting value
    | .option setting none =>
      match rest with
      | value :: rest => do return (← ofList known rest).withSetting setting value
      | [] => .error .noValue
    | .unknown => .error .noSuchOption

end Arguments

end ThemeSheet.Command
