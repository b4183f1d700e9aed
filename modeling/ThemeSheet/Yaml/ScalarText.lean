import ThemeSheet.Yaml.Cursor

/-!
# The text of a YAML scalar

A scalar is written in one of three ways: plain, between quotes, or as a block of lines. In each of
them a single line break between two lines stands for a space and further ones for themselves,
unless the writing keeps all breaks. The readers here return the text of the scalar and the cursor
after it.

Their loops take fuel, of which every round that passes over a character spends one unit; the length
of what is left is always enough.

## Main definitions

* `plainScalar`, `quotedScalar`, `blockScalar`.
-/

namespace ThemeSheet.Yaml

/-- What two lines are joined with: the break between them and the breaks of the empty lines. -/
def folded (lineBreak empty : List Char) : List Char :=
  if lineBreak ≠ ['\n'] then lineBreak ++ empty
  else if empty.isEmpty then [' '] else empty

/-! ### Plain scalars -/

/-- The characters that bound the parts of a flow collection. -/
def isFlowMark (c : Char) : Bool :=
  c == ',' || c == '[' || c == ']' || c == '\x7b' || c == '\x7d'

/-- Whether a word of a plain scalar ends here: at a blank, a break or the end, at a colon that ends
a key, and inside a flow collection at one of its marks. -/
def endsPlainWord (flow : Bool) : List Char → Bool
  | [] => true
  | c :: rest =>
    isBlank c || isBreak c || (c == ':' && (endsWord rest || (flow && endsOr isFlowMark rest))) ||
      (flow && (isFlowMark c || c == '?'))

/-- The number of characters of the word a plain scalar goes on with. -/
def plainWordLength (flow : Bool) : List Char → Nat
  | [] => 0
  | c :: rest => if endsPlainWord flow (c :: rest) then 0 else plainWordLength flow rest + 1

/-- The breaks of empty lines inside a plain scalar, unless a document ends there. -/
def plainEmptyLines : Nat → Cursor → Option (List Char) × Cursor
  | 0, c => (some [], c)
  | fuel + 1, c =>
    if isDocumentMark c.rest && c.column == 0 then (none, c)
    else
      let c := c.skipWhile (· == ' ')
      if c.sees isBreak then
        let (text, c) := c.lineBreak
        let (more, c) := plainEmptyLines fuel c
        (more.map (text ++ ·), c)
      else (some [], c)

/-- What may stand between two words of a plain scalar, whether it crosses to another line, and the
cursor after it. Nothing there ends the scalar. -/
def plainGap (c : Cursor) : List Char × Bool × Cursor :=
  let spaces := c.rest.takeWhile (· == ' ')
  let c := c.skip spaces.length
  if c.sees isBreak then
    let (text, c) := c.lineBreak
    match plainEmptyLines c.left c with
    | (some empty, c) => (folded text empty, true, c)
    | (none, c) => ([], true, c)
  else (spaces, false, c)

/-- A plain scalar from a word on: its text, whether what follows it stands on another line, and the
cursor after it. -/
def plainWords (flow : Bool) (indent : Nat) :
    Nat → List Char → Bool → Cursor → List Char × Bool × Cursor
  | 0, _, crossed, c => ([], crossed, c)
  | fuel + 1, gap, crossed, c =>
    let word := c.rest.take (plainWordLength flow c.rest)
    if word.isEmpty || c.sees (· == '#') then ([], crossed, c)
    else
      let (next, crossed, c) := plainGap (c.skip word.length)
      if next.isEmpty || c.sees (· == '#') || (!flow && decide (c.column < indent)) then
        (gap ++ word, crossed, c)
      else
        let (more, crossed, c) := plainWords flow indent fuel next crossed c
        (gap ++ word ++ more, crossed, c)

/-- A plain scalar. Outside flow collections its further lines are indented. -/
def plainScalar (flow : Bool) (indent : Nat) (c : Cursor) : List Char × Bool × Cursor :=
  plainWords flow indent (c.left + 1) [] false c

/-! ### Quoted scalars -/

/-- The breaks of empty lines between quotes. A document may not end there. -/
def quotedEmptyLines : Nat → Cursor → Except Error (List Char × Cursor)
  | 0, c => .ok ([], c)
  | fuel + 1, c =>
    if isDocumentMark c.rest then .error (.malformed .separatorInQuotes)
    else
      let c := c.skipWhile isBlank
      if c.sees isBreak then do
        let (text, c) := c.lineBreak
        let (more, c) ← quotedEmptyLines fuel c
        return (text ++ more, c)
      else .ok ([], c)

/-- The blanks and breaks between two words in quotes. -/
def quotedGap (c : Cursor) : Except Error (List Char × Cursor) :=
  let blanks := c.rest.takeWhile isBlank
  let c := c.skip blanks.length
  if c.atEnd then .error (.malformed .unexpectedEnd)
  else if c.sees isBreak then do
    let (text, c) := c.lineBreak
    let (empty, c) ← quotedEmptyLines (c.left + 1) c
    return (folded text empty, c)
  else .ok (blanks, c)

/-- The characters that escapes of one letter stand for. -/
def simpleEscapes : List (Char × Char) :=
  [('0', '\x00'), ('a', '\x07'), ('b', '\x08'), ('t', '\t'), ('\t', '\t'), ('n', '\n'),
   ('v', '\x0b'), ('f', '\x0c'), ('r', '\r'), ('e', '\x1b'), (' ', ' '), ('"', '"'),
   ('\\', '\\'), ('/', '/'), ('N', '\x85'), ('_', '\xa0'), ('L', '\u2028'), ('P', '\u2029')]

/-- How many hexadecimal digits follow the letter of a numeric escape. -/
def escapeWidths : List (Char × Nat) := [('x', 2), ('u', 4), ('U', 8)]

/-- The value of a hexadecimal digit. -/
def hexValue? (c : Char) : Option Nat :=
  if '0' ≤ c ∧ c ≤ '9' then some (c.toNat - 48)
  else if 'a' ≤ c ∧ c ≤ 'f' then some (c.toNat - 87)
  else if 'A' ≤ c ∧ c ≤ 'F' then some (c.toNat - 55)
  else none

/-- The value of hexadecimal digits. -/
def hexNumber? (cs : List Char) : Option Nat :=
  cs.foldl (fun acc c => do return (← acc) * 16 + (← hexValue? c)) (some 0)

/-- What an escape stands for, read after its backslash. A number beyond that of the last character
is a mishap and no fault. -/
def escape (c : Cursor) : Except Error (List Char × Cursor) :=
  match c.rest with
  | [] => .error (.malformed .badEscape)
  | ch :: digits =>
    match simpleEscapes.lookup ch, escapeWidths.lookup ch with
    | some meant, _ => .ok ([meant], c.next)
    | none, some width =>
      match hexNumber? (digits.take width) with
      | some n =>
        if (digits.take width).length < width then .error (.malformed .badEscape)
        else if 0x10FFFF < n then .error (.unprepared (.noCharacter n))
        else .ok ([if n.isValidChar then Char.ofNat n else '\uFFFD'], c.skip (width + 1))
      | none => .error (.malformed .badEscape)
    | none, none =>
      if isBreak ch then quotedEmptyLines (c.left + 1) c.lineBreak.2
      else .error (.malformed .badEscape)

/-- A quoted scalar after its opening quote. Between single quotes only a doubled quote stands for
something else than itself. -/
def quotedBody (double : Bool) : Nat → Cursor → Except Error (List Char × Cursor)
  | 0, _ => .error (.malformed .unexpectedEnd)
  | fuel + 1, c =>
    match c.rest with
    | [] => .error (.malformed .unexpectedEnd)
    | ch :: rest =>
      if isBlank ch || isBreak ch then do
        let (gap, c) ← quotedGap c
        let (more, c) ← quotedBody double fuel c
        return (gap ++ more, c)
      else if double && ch == '"' then .ok ([], c.next)
      else if double && ch == '\\' then do
        let (meant, c) ← escape c.next
        let (more, c) ← quotedBody double fuel c
        return (meant ++ more, c)
      else if !double && ch == '\x27' then
        if rest.head? = some '\x27' then do
          let (more, c) ← quotedBody double fuel (c.skip 2)
          return (ch :: more, c)
        else .ok ([], c.next)
      else do
        let (more, c) ← quotedBody double fuel c.next
        return (ch :: more, c)

/-- A quoted scalar. -/
def quotedScalar (double : Bool) (c : Cursor) : Except Error (List Char × Cursor) :=
  quotedBody double (c.left + 1) c.next

/-! ### Block scalars -/

/-- What a block does with the breaks at its end. -/
inductive Chomping where
  | strip
  | clip
  | keep
deriving DecidableEq, Repr

/-- The header of a block: what happens to the last breaks, and the indentation if it is given. -/
structure BlockHeader where
  chomping : Chomping := .clip
  indent : Option Nat := none
deriving DecidableEq, Repr

/-- A sign in a header. -/
def chompingOf? : List Char → Option Chomping
  | '+' :: _ => some .keep
  | '-' :: _ => some .strip
  | _ => none

/-- A digit in a header. -/
def indentOf? : List Char → Option Nat
  | c :: _ => if '0' ≤ c ∧ c ≤ '9' then some (c.toNat - 48) else none
  | [] => none

/-- The header of a block: a sign and a digit, in any order, each of which may be missing. -/
def blockHeader (c : Cursor) : Except Error (BlockHeader × Cursor) :=
  let (sign, c) := match chompingOf? c.rest with
    | some s => (some s, c.next)
    | none => (none, c)
  let (indent, c) := match indentOf? c.rest with
    | some n => (some n, c.next)
    | none => (none, c)
  let (sign, c) := match sign, indent, chompingOf? c.rest with
    | none, some _, some s => (some s, c.next)
    | sign, _, _ => (sign, c)
  if indent = some 0 ∨ !endsField c.rest then .error (.malformed .badBlockHeader)
  else .ok (⟨sign.getD .clip, indent⟩, c)

/-- The breaks of the empty lines at the beginning of a block, and the widest indentation among them
and the first line that is not empty. -/
def leadingLines : Nat → Nat → Cursor → List Char × Nat × Cursor
  | 0, widest, c => ([], widest, c)
  | fuel + 1, widest, c =>
    let c := c.skipWhile (· == ' ')
    let widest := max widest c.column
    if c.sees isBreak then
      let (text, c) := c.lineBreak
      let (more, widest, c) := leadingLines fuel widest c
      (text ++ more, widest, c)
    else ([], widest, c)

/-- The breaks of empty lines in a block of a known indentation. -/
def blockEmptyLines (indent : Nat) : Nat → Cursor → List Char × Cursor
  | 0, c => ([], c)
  | fuel + 1, c =>
    let c := c.skipSpacesTo indent
    if c.sees isBreak then
      let (text, c) := c.lineBreak
      let (more, c) := blockEmptyLines indent fuel c
      (text ++ more, c)
    else ([], c)

/-- What has been read of a block: its text, the break after its last line, the breaks of the empty
lines after that, and the cursor. -/
structure BlockLines where
  text : List Char
  lineBreak : List Char
  empty : List Char
  cursor : Cursor

/-- Whether a line of a block of an indentation starts here. -/
def atBlockLine (indent : Nat) (c : Cursor) : Bool := c.column == indent && !c.atEnd

/-- The lines of a block. Lines are folded where both stand at the margin. -/
def blockLines (fold : Bool) (indent : Nat) : Nat → List Char → Cursor → BlockLines
  | 0, empty, c => ⟨[], [], empty, c⟩
  | fuel + 1, empty, c =>
    if atBlockLine indent c then
      let line := c.rest.takeWhile (!isBreak ·)
      let (lineBreak, after) := (c.skip line.length).lineBreak
      let (nextEmpty, after) := blockEmptyLines indent (after.left + 1) after
      if atBlockLine indent after then
        let glue :=
          if fold && lineBreak == ['\n'] && !c.sees isBlank && !after.sees isBlank then
            if nextEmpty.isEmpty then [' '] else []
          else lineBreak
        let more := blockLines fold indent fuel nextEmpty after
        { more with text := empty ++ line ++ glue ++ more.text }
      else ⟨empty ++ line, lineBreak, nextEmpty, after⟩
    else ⟨[], [], empty, c⟩

/-- A block scalar after its mark. `margin` is the least indentation it can have. -/
def blockScalar (fold : Bool) (margin : Nat) (c : Cursor) : Except Error (List Char × Cursor) := do
  let (header, c) ← blockHeader c
  let c ← c.skipRestOfLine .badBlockHeader
  let (empty, indent, c) := match header.indent with
    | some n =>
      let indent := margin + n - 1
      let (empty, c) := blockEmptyLines indent (c.left + 1) c
      (empty, indent, c)
    | none =>
      let (empty, widest, c) := leadingLines (c.left + 1) 0 c
      (empty, max margin widest, c)
  let lines := blockLines fold indent (c.left + 1) empty c
  let ending := match header.chomping with
    | .strip => []
    | .clip => lines.lineBreak
    | .keep => lines.lineBreak ++ lines.empty
  return (lines.text ++ ending, lines.cursor)

end ThemeSheet.Yaml
