import ThemeSheet.Text.Chars
import ThemeSheet.Text.Digit

/-!
# Keys and strings of a TOML text

A key is a sequence of parts between dots, each a bare word or a string of one line. A string is
basic, with escapes, or literal, and each kind has a form of one line and one of several. In a
string of several lines a line break after the opening quotes does not count, and up to two quotes
may stand before the closing ones.

Every reader returns what it has read with the rest of the text. The loops that pass over escapes
take fuel, a unit for each character.

## Main definitions

* `Fault`, `Fault.wording`;
* `key`, `string?`.
-/

namespace ThemeSheet.Toml

/-- Why a text is refused. -/
inductive Fault where
  | badStatement
  | badKey
  | badValue
  | badString
  | badEscape
  | badMoment
  | badComment
  | missingEquals
  | missingBracket
  | unclosedArray
  | unclosedTable
  | missingLineEnd
  | declaredTwice
  | frozen
  | overwritten
deriving DecidableEq, Repr

namespace Fault

/-- The wording of a fault. -/
def wording : Fault → String
  | .badStatement => "a statement is malformed"
  | .badKey => "a key is malformed"
  | .badValue => "a value is malformed"
  | .badString => "a string is malformed"
  | .badEscape => "an escape is unknown"
  | .badMoment => "a date is not in the calendar"
  | .badComment => "a comment holds a control character"
  | .missingEquals => "a key is not followed by an equals sign"
  | .missingBracket => "the name of a table is not closed"
  | .unclosedArray => "an array is not closed"
  | .unclosedTable => "an inline table is not closed"
  | .missingLineEnd => "a statement is not followed by the end of the line"
  | .declaredTwice => "a table is declared twice"
  | .frozen => "an inline value is extended"
  | .overwritten => "a value is overwritten"

end Fault

/-- Something that has been read, and the rest of the text. -/
abbrev Taken (α : Type) := α × List Char

/-! ### Characters -/

/-- Whether a character is a blank inside a line. -/
def isBlank (c : Char) : Bool := c == ' ' || c == '\t'

/-- Whether a character is a blank or a line break. -/
def isSpace (c : Char) : Bool := isBlank c || c == '\n'

/-- Whether a character is a control character other than the tab. -/
def isControl (c : Char) : Bool := (decide (c.toNat < 32) && c != '\t') || c.toNat == 127

/-- Whether a character may stand in a bare word. -/
def isBare (c : Char) : Bool := c.isAlphanum || c == '-' || c == '_'

/-- The text after the blanks it begins with. -/
def skipBlanks (cs : List Char) : List Char := cs.dropWhile isBlank

/-- The text after the comment it may begin with. -/
def skipComment : List Char → Except Fault (List Char)
  | '#' :: rest =>
    if (rest.takeWhile (· ≠ '\n')).any isControl then .error .badComment
    else .ok (rest.dropWhile (· ≠ '\n'))
  | cs => .ok cs

/-! ### Escapes -/

/-- The value of a hexadecimal digit. -/
def hexValue? (c : Char) : Option Nat :=
  if '0' ≤ c ∧ c ≤ '9' then some (c.toNat - 48)
  else if 'a' ≤ c ∧ c ≤ 'f' then some (c.toNat - 87)
  else if 'A' ≤ c ∧ c ≤ 'F' then some (c.toNat - 55)
  else none

/-- The character of a code point in hexadecimal digits. -/
def codePoint (width : Nat) (cs : List Char) : Except Fault (Taken (List Char)) :=
  let n := (cs.take width).foldl (fun acc c => do return (← acc) * 16 + (← hexValue? c)) (some 0)
  match n with
  | some n => if width ≤ cs.length ∧ n.isValidChar then .ok ([Char.ofNat n], cs.drop width)
    else .error .badEscape
  | none => .error .badEscape

/-- What an escape stands for, read after its backslash. In a string of several lines a backslash at
the end of a line joins it to the next text. -/
def escape (several : Bool) : List Char → Except Fault (Taken (List Char))
  | [] => .error .badEscape
  | c :: rest =>
    if several && isSpace c then
      match skipBlanks (c :: rest) with
      | '\n' :: next => .ok ([], next.dropWhile isSpace)
      | [] => .ok ([], [])
      | _ => .error .badEscape
    else match c with
      | 'b' => .ok (['\x08'], rest)
      | 't' => .ok (['\t'], rest)
      | 'n' => .ok (['\n'], rest)
      | 'f' => .ok (['\x0c'], rest)
      | 'r' => .ok (['\r'], rest)
      | '"' => .ok (['"'], rest)
      | '\\' => .ok (['\\'], rest)
      | 'u' => codePoint 4 rest
      | 'U' => codePoint 8 rest
      | _ => .error .badEscape

/-! ### Strings -/

/-- Whether a character may not stand in a string. -/
def isIllegal (several : Bool) (c : Char) : Bool := isControl c && !(several && c == '\n')

/-- Up to two quotes that stand before the closing ones, which have just been passed over. -/
def extraQuotes (quote : Char) (cs : List Char) : List Char × List Char :=
  let extra := (cs.take 2).takeWhile (· = quote)
  (extra, cs.drop extra.length)

/-- A string after its opening quotes. Only a basic string has escapes. -/
def stringBody (quote : Char) (several : Bool) : Nat → List Char → Except Fault (Taken (List Char))
  | 0, _ => .error .badString
  | fuel + 1, cs =>
    match cs with
    | [] => .error .badString
    | c :: rest =>
      if c = quote ∧ !several then .ok ([], rest)
      else if c = quote ∧ rest.take 2 = [quote, quote] then
        .ok (extraQuotes quote (rest.drop 2))
      else if c = '\\' ∧ quote = '"' then do
        let (meant, rest) ← escape several rest
        let (more, rest) ← stringBody quote several fuel rest
        return (meant ++ more, rest)
      else if isIllegal several c then .error .badString
      else do
        let (more, rest) ← stringBody quote several fuel rest
        return (c :: more, rest)

/-- The text without the line break it may begin with. -/
def dropLineBreak : List Char → List Char
  | '\n' :: rest => rest
  | cs => cs

/-- A string of one line after its opening quote. -/
def lineString (quote : Char) (rest : List Char) : Except Fault (Taken String) := do
  let (chars, rest) ← stringBody quote false (rest.length + 1) rest
  return (String.ofList chars, rest)

/-- A string, if one comes next. -/
def string? (cs : List Char) : Option (Except Fault (Taken String)) :=
  match cs with
  | c :: rest =>
    if c = '"' ∨ c = '\x27' then
      if rest.take 2 = [c, c] then some do
        let (chars, rest) ← stringBody c true (rest.length + 1) (dropLineBreak (rest.drop 2))
        return (String.ofList chars, rest)
      else some (lineString c rest)
    else none
  | [] => none

/-! ### Keys -/

/-- A part of a key. -/
def keyPart (cs : List Char) : Except Fault (Taken String) :=
  match cs with
  | c :: rest =>
    if isBare c then .ok (String.ofList (cs.takeWhile isBare), cs.dropWhile isBare)
    else if c = '"' ∨ c = '\x27' then lineString c rest
    else .error .badKey
  | [] => .error .badKey

/-- The parts of a key, and the rest after the blanks behind it. -/
def keyParts : Nat → List Char → Except Fault (Taken (List String))
  | 0, _ => .error .badKey
  | fuel + 1, cs => do
    let (part, rest) ← keyPart cs
    match skipBlanks rest with
    | '.' :: rest =>
      let (more, rest) ← keyParts fuel (skipBlanks rest)
      return (part :: more, rest)
    | rest => return ([part], rest)

/-- A key. -/
def key (cs : List Char) : Except Fault (Taken (List String)) := keyParts (cs.length + 1) cs

end ThemeSheet.Toml
