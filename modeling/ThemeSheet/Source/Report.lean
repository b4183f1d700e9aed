import ThemeSheet.Files.Disk
import ThemeSheet.Files.Lines
import ThemeSheet.Theme.Request

/-!
# Problems with files

Reading a file can fail in two ways. A problem is something wrong with the file that is reported to
the user, with the file and perhaps the key that it is about. A breakdown is everything else that
can stop a reader: it is not prepared for, and is passed on as it is.

## Main definitions

* `FileReport`, `FileReport.text`;
* `Breakdown`, `Breakdown.message`;
* `Failure`, either of them.
-/

namespace ThemeSheet

/-- A problem as it is reported. -/
structure FileReport where
  file : Location
  /-- The key of the entry that the problem is about, its parts joined with dots. -/
  key : Option String := none
  message : String
deriving DecidableEq, Repr

/-- The text of a report: the file, the key in brackets, and below them the message. -/
def FileReport.text (report : FileReport) : String :=
  let place := match report.key with
    | some key => report.file.text ++ " [" ++ key ++ "]"
    | none => report.file.text
  place ++ "\n" ++ report.message

/-- The wording of a fault in the access to a file. -/
def AccessFault.message (fault : AccessFault) (file : Location) : String :=
  match fault.number? with
  | some number =>
    "[Errno " ++ toString number ++ "] " ++ fault.wording ++ ": " ++ quoted file.text
  | none => fault.wording

/-- What stops a program without being reported. -/
inductive Breakdown where
  /-- The bytes of a file are no text. -/
  | undecodable (fault : Utf8.Fault)
  /-- An integer has too many digits to be read. -/
  | numeralTooLong (digits : Nat)
  /-- A number has no digits. -/
  | noDigits (base : Nat)
  /-- No character has a number. -/
  | noCharacter (code : Nat)
  /-- There is no such day, or no such time. -/
  | noMoment (fault : MomentFault)
  /-- A number has too many parts for a binary64 number. -/
  | powerTooLarge
  /-- A file cannot be written, or not even asked about. -/
  | inaccessible (file : Location) (fault : AccessFault)
  | request (error : RequestError)
deriving DecidableEq, Repr

namespace Breakdown

/-- Whether the number of a character does not even fit into a signed word of 32 bits. -/
def isHugeCode (code : Nat) : Bool := decide (Nat.pow 2 31 ≤ code)

/-- The wording of a breakdown. -/
def message : Breakdown → String
  | .undecodable fault => fault.message
  | .numeralTooLong digits => Decimal.tooLongText digits
  | .noDigits base => "invalid literal for int() with base " ++ toString base ++ ": ''"
  | .noCharacter code =>
    if isHugeCode code then "Python int too large to convert to C int"
    else "chr() arg not in range(0x110000)"
  | .noMoment fault => fault.message
  | .powerTooLarge => "int too large to convert to float"
  | .inaccessible file fault => fault.message file
  | .request error => error.message

end Breakdown

/-- Why a file is not read: a problem of some kind, or a breakdown. -/
inductive Failure (π : Type) where
  | problem (problem : π)
  | breakdown (breakdown : Breakdown)
deriving DecidableEq, Repr

namespace Failure

/-- A refusal as a failure. -/
def ofRefusal {π α : Type} : Except Refusal α → Except (Failure π) α
  | .ok a => .ok a
  | .error refusal => .error (.breakdown (.request (.refused refusal)))

/-- The text of some bytes, or the failure to decode them. -/
def decoded {π : Type} (bytes : List UInt8) : Except (Failure π) (List Char) :=
  match Text.ofBytes bytes with
  | .ok text => .ok text
  | .error fault => .error (.breakdown (.undecodable fault))

end Failure

end ThemeSheet
