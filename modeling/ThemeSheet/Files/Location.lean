import ThemeSheet.Text.Chars

/-!
# Locations of files

A location is written with slashes and kept as its parts. Empty parts and parts that are a single
dot say nothing and are dropped, so a location has one written form; two dots are a part of their
own, because only the disk knows what lies above. A location without parts is the directory it is
read in, or the root.

## Main definitions

* `Location`, `Location.ofText`, `Location.text`;
* `Location.child`, `Location.extension`, `Location.plain`, `Location.ancestors`.
-/

namespace ThemeSheet

/-- Where a location starts: in the working directory, at the root, or at the root that is written
with two slashes. -/
inductive LocationRoot where
  | here
  | root
  | doubleRoot
deriving DecidableEq, Repr

/-- The location of a file or a directory. -/
structure Location where
  start : LocationRoot
  parts : List String
deriving DecidableEq, Repr

namespace LocationRoot

/-- The slashes that a start is written with. -/
def text : LocationRoot → String
  | .here => ""
  | .root => "/"
  | .doubleRoot => "//"

/-- The start of a written location: exactly two slashes are kept apart from one or from more. -/
def ofText : List Char → LocationRoot
  | '/' :: '/' :: '/' :: _ => .root
  | '/' :: '/' :: _ => .doubleRoot
  | '/' :: _ => .root
  | _ => .here

end LocationRoot

namespace Location

/-- Whether a part says where to go. -/
def counts (part : String) : Bool := !part.isEmpty && part != "."

/-- The location that a text writes. -/
def ofText (s : String) : Location :=
  let cs := s.toList
  ⟨.ofText cs, ((Text.splitOn '/' cs).map String.ofList).filter counts⟩

/-- The written form of a location. -/
def text (location : Location) : String :=
  let written := location.start.text ++ "/".intercalate location.parts
  if written.isEmpty then "." else written

/-- A location inside a directory. -/
def child (directory : Location) (name : String) : Location :=
  { directory with parts := directory.parts ++ [name] }

/-- What follows the last dot of a name together with the dot, if something stands on both sides of
it. -/
def extensionOf (name : List Char) : List Char :=
  let tail := (name.reverse.takeWhile (· ≠ '.')).reverse
  if tail.isEmpty || name.length ≤ tail.length + 1 then [] else '.' :: tail

/-- The extension of a location, with its dot, or nothing. -/
def extension (location : Location) : String :=
  match location.parts.getLast? with
  | some name => String.ofList (extensionOf name.toList)
  | none => ""

/-- The parts left when every pair of dots has taken the part before it away. -/
def plainParts (parts : List String) : List String :=
  (parts.foldl (fun done part => if part = ".." then done.drop 1 else part :: done) []).reverse

/-- A location read in a directory, as the parts from the root on. -/
def plain (directory : List String) (location : Location) : List String :=
  plainParts ((if location.start = .here then directory else []) ++ location.parts)

/-- The parts of a directory and of all directories above it, from the nearest on. -/
def ancestors : List String → List (List String)
  | [] => [[]]
  | part :: parts => (ancestors parts).map (part :: ·) ++ [[]]

end Location

end ThemeSheet
