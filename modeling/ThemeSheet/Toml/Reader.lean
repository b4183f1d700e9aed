import ThemeSheet.Toml.Value

/-!
# Reading TOML

A document is a sequence of statements, each on its own line: a key with a value, or the name of the
table that the keys after it belong to. The name of a table of an array adds a table to the array.

A table can be declared only once, and a table that keys have made, by having several parts, cannot
be declared at all once its own section is over. A value that was written inline cannot be extended.
These are the marks of a document; the marks below an array of tables end with each of its tables.

## Main definitions

* `Toml.read`.
-/

namespace ThemeSheet.Toml

/-- A document as far as it has been read. -/
structure Document where
  root : Entries := []
  /-- The keys of the tables that may not be declared. -/
  declared : List (List String) := []
  /-- The keys of the values that were written inline. -/
  inlined : List (List String) := []
  /-- The keys of the tables that may not be declared after the present section. -/
  pending : List (List String) := []
  /-- The key of the present section. -/
  header : List String := []

namespace Document

/-- Whether a key is at or below a value that was written inline. -/
def isFrozen (d : Document) (key : List String) : Bool :=
  !key.isEmpty && d.inlined.any fun k => k.isPrefixOf key

/-- Whether a table may not be declared. -/
def isDeclared (d : Document) (key : List String) : Bool := d.declared.contains key

/-- The document at the end of a section. -/
def endSection (d : Document) : Document :=
  { d with declared := d.pending ++ d.declared, pending := [] }

/-- The document without the marks at and below a key. -/
def unmark (d : Document) (key : List String) : Document :=
  { d with
    declared := d.declared.filter fun k => !key.isPrefixOf k
    inlined := d.inlined.filter fun k => !key.isPrefixOf k }

/-- Starts the section of a table. -/
def openTable (d : Document) (key : List String) : Except Fault Document := do
  let d := d.endSection
  if d.isDeclared key || d.isFrozen key then throw .declaredTwice
  let root ← changeAt true pure key d.root
  return { d with root, declared := key :: d.declared, header := key }

/-- Adds a table to the array under a name. -/
def addTable (name : String) (es : Entries) : Except Fault Entries :=
  match Entries.named? name es with
  | none => .ok (Entries.insert (.text name) (.list [.emptyMap]) es)
  | some (.list items _) => .ok (Entries.insert (.text name) (.list (items ++ [.emptyMap])) es)
  | some _ => .error .overwritten

/-- Starts the section of a further table of an array. -/
def openItem (d : Document) (key : List String) : Except Fault Document := do
  let d := d.endSection
  if d.isFrozen key then throw .frozen
  let d := d.unmark key
  let root ← changeAt true (addTable (key.getLastD "")) key.dropLast d.root
  return { d with root, declared := key :: d.declared, header := key }

/-- The keys of the tables that a key makes inside a section. -/
def tablesOf (header key : List String) : List (List String) :=
  (List.range key.length).tail.map fun n => header ++ key.take n

/-- Writes a value under a key of the present section. -/
def define (d : Document) (key : List String) (v : Value) : Except Fault Document := do
  let made := tablesOf d.header key
  if made.any d.isDeclared then throw .declaredTwice
  if d.isFrozen (d.header ++ key.dropLast) then throw .frozen
  let full := d.header ++ key
  let root ← defineAt true full v d.root
  return { d with
    root
    pending := made ++ d.pending
    inlined := if isClosed v then full :: d.inlined else d.inlined }

end Document

/-- A name in brackets, after the opening ones, and the rest after the closing ones. -/
def bracketed (closing : List Char) (cs : List Char) : Except Fault (Taken (List String)) := do
  let (k, rest) ← key (skipBlanks cs)
  match Text.afterStart? closing rest with
  | some rest => return (k, rest)
  | none => throw .missingBracket

/-- A statement that begins with some character, and the rest of the line. A comment is no
statement. -/
def statement (d : Document) (c : Char) (rest : List Char) : Except Stop (Taken Document) := do
  if c = '#' then return (d, c :: rest)
  else if c = '[' then
    match rest with
    | '[' :: inside =>
      let (k, rest) ← lift (bracketed [']', ']'] inside)
      return (← lift (d.openItem k), skipBlanks rest)
    | _ =>
      let (k, rest) ← lift (bracketed [']'] rest)
      return (← lift (d.openTable k), skipBlanks rest)
  else if isBare c || c = '"' || c = '\x27' then
    let ((k, v), rest) ← pair (2 * rest.length + 4) (c :: rest)
    return (← lift (d.define k v), skipBlanks rest)
  else throw (.malformed .badStatement)

/-- Reads statements. Every round passes over a character or ends the text. -/
def statements : Nat → Document → List Char → Except Stop Document
  | 0, d, _ => .ok d
  | fuel + 1, d, cs =>
    match skipBlanks cs with
    | [] => .ok d
    | '\n' :: rest => statements fuel d rest
    | c :: rest => do
      let (d, rest) ← statement d c rest
      match ← lift (skipComment rest) with
      | [] => return d
      | '\n' :: rest => statements fuel d rest
      | _ => throw (.malformed .missingLineEnd)

/-- The tables of a TOML text. -/
def read (text : List Char) : Except Stop Entries := do
  return (← statements (text.length + 1) {} text).root

end ThemeSheet.Toml
