import ThemeSheet.Command.Run

/-!
# The program

The commands on the files of the machine. This module only carries arguments, bytes and texts in and
out; what is done with them is said elsewhere.
-/

namespace ThemeSheet

/-- The fault that an error of the machine stands for. Its number may come negated. -/
def AccessFault.ofError : IO.Error → AccessFault
  | .inappropriateType _ code _ =>
    let number := AccessFault.notDirectory.number?
    if code.toNat = number ∨ (-code).toNat = number then .notDirectory else .isDirectory
  | .invalidArgument .. => .nameTooLong
  | _ => .notFound

/-- What an access to a location results in. -/
def AccessFault.catching {α : Type} (location : Location) (act : String → IO α) :
    IO (Except AccessFault α) := do
  match location.fault? with
  | some fault => return .error fault
  | none =>
    match ← (act location.text).toBaseIO with
    | .ok a => return .ok a
    | .error e => return .error (.ofError e)

/-- The access to the files of the machine. -/
def machineAccess : Access IO where
  kind location := AccessFault.catching location fun name => do
    match (← ((← IO.currentDir) / name).metadata).type with
    | .dir => return .directory
    | _ => return .file
  read location := AccessFault.catching location fun name => do
    return (← IO.FS.readBinFile ((← IO.currentDir) / name)).toList
  write location content := AccessFault.catching location fun name => do
    IO.FS.writeBinFile ((← IO.currentDir) / name) ⟨content.toArray⟩
  current := return (Location.ofText (← IO.currentDir).toString).parts

end ThemeSheet

/-- Runs the command of a line of arguments. -/
def main (arguments : List String) : IO UInt32 := do
  let outcome ← ThemeSheet.Command.run ThemeSheet.machineAccess arguments
  (← IO.getStdout).putStr outcome.output
  let stderr ← IO.getStderr
  stderr.putStr outcome.diagnostics
  match outcome.breakdown with
  | some breakdown => stderr.putStrLn breakdown.message
  | none => pure ()
  return outcome.exitCode.toUInt32
