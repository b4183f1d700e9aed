import ThemeSheet.Files.Location

/-!
# Disks

What a program sees of a disk: files and directories under their parts from the root on, and the
directory it works in. A directory is there if it is listed or if something is listed below it.

`Access` is what a program may ask of a disk, in any monad, so that one program runs on a disk that
is a value and on a real one. `Disk.access` is the former.

A location is followed part by part. Each part but the last has to be a directory, and two dots lead
to the directory above, which is the root itself at the root. No part may have more than 255 bytes,
and no location more than 4095.

A program that asks whether something is there gets an answer where the location leads nowhere, but
not where the location is too long to be followed: that is a fault.

## Main definitions

* `AccessFault`, `Location.fault?`;
* `Disk`, with `follow`, `read` and `write`;
* `Access`, with `Access.present` and `Access.isFile`; `Disk.access`.
-/

namespace ThemeSheet

/-- Why a location is not read or written. -/
inductive AccessFault where
  | notFound
  | notDirectory
  | isDirectory
  /-- A part of the location, or all of it, is too long. -/
  | nameTooLong
  /-- The location holds a null character. -/
  | nullCharacter
deriving DecidableEq, Repr

namespace AccessFault

/-- The number of a fault. A location with a null character never gets as far as a numbered one. -/
def number? : AccessFault → Option Nat
  | .notFound => some 2
  | .notDirectory => some 20
  | .isDirectory => some 21
  | .nameTooLong => some 36
  | .nullCharacter => none

/-- The wording of a fault. -/
def wording : AccessFault → String
  | .notFound => "No such file or directory"
  | .notDirectory => "Not a directory"
  | .isDirectory => "Is a directory"
  | .nameTooLong => "File name too long"
  | .nullCharacter => "embedded null byte"

/-- Whether a fault means that nothing is there. -/
def meansAbsent (fault : AccessFault) : Bool := decide (fault ≠ .nameTooLong)

end AccessFault

namespace Location

/-- The greatest length of a part, in bytes. -/
def maxPartSize : Nat := 255

/-- The greatest length of a location, in bytes. -/
def maxSize : Nat := 4095

/-- Whether a text holds the null character. -/
def holdsNull (s : String) : Bool := s.toList.contains '\x00'

/-- The fault of a location that no disk can have. -/
def fault? (location : Location) : Option AccessFault :=
  if holdsNull location.text then some .nullCharacter
  else if maxSize < location.text.utf8ByteSize then some .nameTooLong
  else none

end Location

/-- What is listed on a disk. -/
inductive DiskEntry where
  | file (content : List UInt8)
  | directory
deriving Repr

/-- The kinds of entries. -/
inductive EntryKind where
  | file
  | directory
deriving DecidableEq, Repr

/-- The kind of an entry. -/
def DiskEntry.kind : DiskEntry → EntryKind
  | .file _ => .file
  | .directory => .directory

/-- The entries of a disk by their parts from the root on, and the working directory. -/
structure Disk where
  entries : List (List String × DiskEntry)
  current : List String
deriving Repr

namespace Disk

/-- What is at some parts from the root on. -/
def entry? (disk : Disk) (parts : List String) : Option DiskEntry :=
  match disk.entries.lookup parts with
  | some entry => some entry
  | none =>
    if parts.isEmpty || disk.entries.any fun e => parts.isPrefixOf e.1 then some .directory
    else none

/-- One part further from a place, which is given by its parts in reverse. -/
def followPart (disk : Disk) (place : List String) (part : String) :
    Except AccessFault (List String) :=
  match disk.entry? place.reverse with
  | none => .error .notFound
  | some (.file _) => .error .notDirectory
  | some .directory =>
    if Location.maxPartSize < part.utf8ByteSize then .error .nameTooLong
    else .ok (if part = ".." then place.drop 1 else part :: place)

/-- Where a location starts, by its parts in reverse. -/
def startOf (disk : Disk) (location : Location) : List String :=
  if location.start = .here then disk.current.reverse else []

/-- The parts from the root on that a location leads to. What is there is another question. -/
def follow (disk : Disk) (location : Location) : Except AccessFault (List String) := do
  match location.fault? with
  | some fault => throw fault
  | none => return (← location.parts.foldlM disk.followPart (disk.startOf location)).reverse

/-- What a location leads to. -/
def find (disk : Disk) (location : Location) : Except AccessFault DiskEntry := do
  match disk.entry? (← disk.follow location) with
  | some entry => .ok entry
  | none => .error .notFound

/-- The bytes of a file. -/
def read (disk : Disk) (location : Location) : Except AccessFault (List UInt8) := do
  match ← disk.find location with
  | .file content => .ok content
  | .directory => .error .isDirectory

/-- The disk with the bytes of a file written; the directory of the file has to be there. -/
def write (disk : Disk) (location : Location) (content : List UInt8) :
    Except AccessFault Disk := do
  let parts ← disk.follow location
  match disk.entry? parts with
  | some .directory => .error .isDirectory
  | _ => .ok { disk with
      entries := disk.entries.filter (fun e => e.1 ≠ parts) ++ [(parts, .file content)] }

end Disk

/-- What a program may ask of a disk. -/
structure Access (m : Type → Type) where
  /-- The kind of the entry that a location leads to. -/
  kind : Location → m (Except AccessFault EntryKind)
  /-- The bytes of a file. -/
  read : Location → m (Except AccessFault (List UInt8))
  /-- Writes the bytes of a file. -/
  write : Location → List UInt8 → m (Except AccessFault Unit)
  /-- The working directory, by its parts from the root on. -/
  current : m (List String)

namespace Access

variable {m : Type → Type} [Monad m]

/-- Whether a location leads to an entry of one of some kinds. -/
def leadsTo (access : Access m) (wanted : EntryKind → Bool) (location : Location) :
    m (Except AccessFault Bool) := do
  match ← access.kind location with
  | .ok kind => return .ok (wanted kind)
  | .error fault => return if fault.meansAbsent then .ok false else .error fault

/-- Whether a location leads to something. -/
def present (access : Access m) (location : Location) : m (Except AccessFault Bool) :=
  access.leadsTo (fun _ => true) location

/-- Whether a location leads to a file. -/
def isFile (access : Access m) (location : Location) : m (Except AccessFault Bool) :=
  access.leadsTo (fun kind => decide (kind = .file)) location

end Access

/-- The access to a disk that is a value. -/
def Disk.access : Access (StateM Disk) where
  kind location := return ((← get).find location).map DiskEntry.kind
  read location := return (← get).read location
  write location content := do
    match (← get).write location content with
    | .ok disk => set disk; return .ok ()
    | .error fault => return .error fault
  current := return (← get).current

end ThemeSheet
