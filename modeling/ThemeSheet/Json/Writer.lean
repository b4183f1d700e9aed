import ThemeSheet.Tree.Spelling

/-!
# Writing JSON

Two forms of one writer: everything on one line, or one item a line with two more blanks for each
level. Characters beyond ASCII are written as they are. A key that is not a text is written as the
text of the JSON value it would be, and numbers that JSON does not have are written as the words the
reader takes. Dates and times have no JSON form at all, and are refused; so is a collection inside
itself.

## Main definitions

* `Json.compact`, `Json.indented`.
-/

namespace ThemeSheet.Json

/-! ### Scalars -/

/-- A character inside a string. -/
def stringChar (c : Char) : List Char :=
  if c = '"' then ['\\', '"']
  else if c = '\\' then ['\\', '\\']
  else if c = '\n' then ['\\', 'n']
  else if c = '\r' then ['\\', 'r']
  else if c = '\t' then ['\\', 't']
  else if c = '\x0c' then ['\\', 'f']
  else if c = '\x08' then ['\\', 'b']
  else if c.toNat < 32 then '\\' :: 'u' :: hexDigits 4 c.toNat
  else [c]

/-- A string. -/
def string (s : String) : String :=
  String.ofList ('"' :: s.toList.flatMap stringChar ++ ['"'])

/-- A floating-point number. -/
def float : Binary64 → String
  | .nan _ => "NaN"
  | .infinite false => "Infinity"
  | .infinite true => "-Infinity"
  | x => Decimal.text x

/-- A truth value. -/
def bool (b : Bool) : String := if b then "true" else "false"

/-- A key, before it is quoted. -/
def keyText : Key → Except Refusal String
  | .text s => .ok s
  | .null => .ok "null"
  | .bool b => .ok (bool b)
  | .int n => integerSpelling n
  | .float x => .ok (float x)
  | .moment m => .error (.noJsonKey m.kind)

/-! ### Containers -/

/-- How a container is laid out: the text after its opening bracket, between two items, before its
closing bracket, and between a key and its value. -/
structure Frame where
  opening : String
  between : String
  closing : String
  colon : String

/-- A layout gives the frame of each level of nesting. -/
abbrev Layout := Nat → Frame

/-- Everything on one line. -/
def Layout.oneLine : Layout := fun _ => ⟨"", ",", "", ":"⟩

/-- A line break with the blanks of a level. -/
def newline (level : Nat) : String := String.ofList ('\n' :: List.replicate (2 * level) ' ')

/-- One item a line, two blanks for each level. -/
def Layout.lines : Layout := fun level =>
  ⟨newline (level + 1), "," ++ newline (level + 1), newline level, ": "⟩

/-- Items inside brackets; nothing stands inside the brackets of an empty container. -/
def framed (frame : Frame) (opening closing : String) (parts : List String) : String :=
  if parts.isEmpty then opening ++ closing
  else opening ++ frame.opening ++ frame.between.intercalate parts ++ frame.closing ++ closing

mutual

/-- A value at a level of nesting. The marks are those of the collections around it. -/
def write (layout : Layout) (level : Nat) (around : List Mark) : Value → Except Refusal String
  | .null => .ok "null"
  | .bool b => .ok (bool b)
  | .int n => integerSpelling n
  | .float x => .ok (float x)
  | .moment m => .error (.noJson m.kind)
  | .text s => .ok (string s)
  | .list vs mark =>
    if Mark.recurs mark around then .error .circular
    else do
      let parts ← writeItems layout (level + 1) (Mark.within mark around) vs
      return framed (layout level) "[" "]" parts
  | .map es mark =>
    if Mark.recurs mark around then .error .circular
    else do
      let parts ← writeMembers layout (level + 1) (Mark.within mark around) (layout level).colon es
      return framed (layout level) "\x7b" "\x7d" parts

/-- The items of a list. -/
def writeItems (layout : Layout) (level : Nat) (around : List Mark) :
    List Value → Except Refusal (List String)
  | [] => .ok []
  | v :: vs => do
    let s ← write layout level around v
    let rest ← writeItems layout level around vs
    return s :: rest

/-- The members of a mapping. -/
def writeMembers (layout : Layout) (level : Nat) (around : List Mark) (colon : String) :
    List (Key × Value) → Except Refusal (List String)
  | [] => .ok []
  | (k, v) :: es => do
    let key ← keyText k
    let s ← write layout level around v
    let rest ← writeMembers layout level around colon es
    return (string key ++ colon ++ s) :: rest

end

/-- A value on one line. -/
def compact (v : Value) : Except Refusal String := write Layout.oneLine 0 [] v

/-- A value with one item a line. -/
def indented (v : Value) : Except Refusal String := write Layout.lines 0 [] v

end ThemeSheet.Json
