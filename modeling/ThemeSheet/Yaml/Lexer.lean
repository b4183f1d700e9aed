import ThemeSheet.Number.Decimal
import ThemeSheet.Yaml.ScalarText

/-!
# Reading the tokens of a YAML text

The lexer keeps the columns of the open block collections. A token to the left of a column closes
its collection, and an item or a key to the right of the last column opens a new one.

A key need not be marked: `a: 1` is a key because of the colon that comes after it. So whatever may
be such a key is remembered as a candidate, with the number of tokens before it, and a colon puts
the missing tokens in front of the candidate. A candidate lasts for one line and 1024 characters,
and there is one for each open flow collection and one outside of them. At the left edge of an open
block collection a candidate is required: there has to be a colon.

A token is certain when it is no candidate and none is before it. At a mishap only the certain
tokens are kept, since whoever reads the tokens is never given another one before the mishap is
found.

Every round passes over a character of the text or ends it, so its length is fuel enough.

## Main definitions

* `tokens`, the tokens of a text.
-/

namespace ThemeSheet.Yaml

/-- A token that may turn out to be a key. -/
structure Candidate where
  /-- How many tokens are before it. -/
  before : Nat
  required : Bool
  line : Nat
  column : Nat
  index : Nat
deriving Repr

/-- What the lexer knows between two tokens. -/
structure Lexer where
  cursor : Cursor
  /-- The tokens so far in reverse. -/
  done : List Token := []
  /-- The number of tokens so far. -/
  number : Nat := 0
  /-- The columns of the open block collections, the innermost first. -/
  columns : List Nat := []
  /-- The candidate outside of flow collections. -/
  outer : Option Candidate := none
  /-- The candidates of the open flow collections, the innermost first. -/
  inner : List (Option Candidate) := []
  /-- Whether a key may start here. -/
  keyAllowed : Bool := true

namespace Lexer

/-- Whether a flow collection is open. -/
def inFlow (l : Lexer) : Bool := !l.inner.isEmpty

/-- The lexer with a further token. -/
def push (l : Lexer) (t : Token) : Lexer := { l with done := t :: l.done, number := l.number + 1 }

/-- The lexer with further tokens that are all the same. -/
def pushMany (l : Lexer) (count : Nat) (t : Token) : Lexer :=
  { l with done := List.replicate count t ++ l.done, number := l.number + count }

/-- The least column inside the innermost block collection. -/
def margin (l : Lexer) : Nat := match l.columns with
  | [] => 0
  | column :: _ => column + 1

/-! ### Candidates -/

/-- The candidate of the innermost flow collection, or the one outside. -/
def candidate (l : Lexer) : Option Candidate := l.inner.headD l.outer

/-- Puts a candidate in the place of the present one. -/
def withCandidate (l : Lexer) (c : Option Candidate) : Lexer :=
  match l.inner with
  | [] => { l with outer := c }
  | _ :: rest => { l with inner := c :: rest }

/-- Gives a candidate up. A required one may not be given up. -/
def giveUp : Option Candidate → Except Error (Option Candidate)
  | some c => if c.required then .error (.malformed .missingColon) else .ok none
  | none => .ok none

/-- Gives the present candidate up. -/
def dropCandidate (l : Lexer) : Except Error Lexer := do
  return l.withCandidate (← giveUp l.candidate)

/-- Whether a candidate can no longer become a key at a place. -/
def isStale (place : Cursor) (c : Candidate) : Bool :=
  decide (c.line ≠ place.line) || decide (1024 < place.index - c.index)

/-- Gives a candidate up if it is stale. -/
def refreshed (place : Cursor) (c : Option Candidate) : Except Error (Option Candidate) :=
  if c.any (isStale place) then giveUp c else .ok c

/-- Gives the stale candidates up. -/
def dropStale (l : Lexer) : Except Error Lexer := do
  let outer ← refreshed l.cursor l.outer
  let inner ← l.inner.mapM (refreshed l.cursor)
  return { l with outer, inner }

/-- Remembers that a key may start here. -/
def markCandidate (l : Lexer) : Except Error Lexer :=
  if l.keyAllowed then do
    let l ← l.dropCandidate
    let required := !l.inFlow && l.columns.head? == some l.cursor.column
    return l.withCandidate (some
      ⟨l.number, required, l.cursor.line, l.cursor.column, l.cursor.index⟩)
  else .ok l

/-! ### Block collections -/

/-- Closes the block collections to the right of a column. -/
def closeTo (column : Nat) (l : Lexer) : Lexer :=
  if l.inFlow then l
  else
    let closed := (l.columns.takeWhile (decide <| column < ·)).length
    { l.pushMany closed .blockEnd with columns := l.columns.drop closed }

/-- Closes all block collections. -/
def closeAll (l : Lexer) : Lexer :=
  if l.inFlow then l
  else { l.pushMany l.columns.length .blockEnd with columns := [] }

/-- Whether a collection that starts at a column is a new one. -/
def opens (l : Lexer) (column : Nat) : Bool := l.columns.head?.all (decide <| · < column)

/-- Opens a block collection here, if it is a new one. -/
def openBlock (l : Lexer) (start : Token) : Lexer :=
  if l.opens l.cursor.column then
    { l.push start with columns := l.cursor.column :: l.columns }
  else l

/-! ### Blanks -/

/-- Passes over blanks, comments and line breaks. After a break a key may start. -/
def skipBlanks : Nat → Lexer → Lexer
  | 0, l => l
  | fuel + 1, l =>
    let c := (l.cursor.skipWhile (· == ' ')).skipComment
    if c.sees isBreak then
      skipBlanks fuel { l with cursor := c.lineBreak.2, keyAllowed := l.keyAllowed || !l.inFlow }
    else { l with cursor := c }

/-! ### Marks -/

/-- A mark of one or more characters, after which no key may be open. -/
def mark (l : Lexer) (width : Nat) (t : Token) : Lexer :=
  { l.push t with cursor := l.cursor.skip width }

/-- A line that separates documents. -/
def separator (l : Lexer) (t : Token) : Except Error Lexer := do
  let l ← l.closeAll.dropCandidate
  return { l.mark 3 t with keyAllowed := false }

/-- The opening bracket of a flow collection. -/
def openFlow (l : Lexer) (t : Token) : Except Error Lexer := do
  let l ← l.markCandidate
  return { l.mark 1 t with inner := none :: l.inner, keyAllowed := true }

/-- The closing bracket of a flow collection. -/
def closeFlow (l : Lexer) (t : Token) : Except Error Lexer := do
  if !l.inFlow then throw (.malformed .unexpectedToken)
  let l ← l.dropCandidate
  return { l.mark 1 t with inner := l.inner.tail, keyAllowed := false }

/-- A comma. -/
def comma (l : Lexer) : Except Error Lexer := do
  let l ← l.dropCandidate
  return { l.mark 1 .comma with keyAllowed := true }

/-- The dash of an item. Inside a flow collection it is no item, which is found out later. -/
def item (l : Lexer) : Except Error Lexer := do
  if !l.inFlow && !l.keyAllowed then throw (.malformed .itemNotAllowed)
  let l := if l.inFlow then l else l.openBlock .blockSequenceStart
  let l ← l.dropCandidate
  return { l.mark 1 .item with keyAllowed := true }

/-- The question mark of a key. -/
def key (l : Lexer) : Except Error Lexer := do
  if !l.inFlow && !l.keyAllowed then throw (.malformed .keyNotAllowed)
  let l := if l.inFlow then l else l.openBlock .blockMappingStart
  let l ← l.dropCandidate
  return { l.mark 1 .key with keyAllowed := !l.inFlow }

/-- Makes the candidate a key: the tokens that it lacks are put in front of it. -/
def insertKey (l : Lexer) (c : Candidate) : Lexer :=
  let new := !l.inFlow && l.opens c.column
  let front : List Token := if new then [.key, .blockMappingStart] else [.key]
  let later := l.number - c.before
  { l.withCandidate none with
    done := l.done.take later ++ front ++ l.done.drop later
    number := l.number + front.length
    columns := if new then c.column :: l.columns else l.columns }

/-- The colon of a value. -/
def value (l : Lexer) : Except Error Lexer := do
  match l.candidate with
  | some c => return { (l.insertKey c).mark 1 .value with keyAllowed := false }
  | none =>
    if !l.inFlow && !l.keyAllowed then throw (.malformed .valueNotAllowed)
    let l := if l.inFlow then l else l.openBlock .blockMappingStart
    return { l.mark 1 .value with keyAllowed := !l.inFlow }

/-! ### Names -/

/-- An alias or an anchor. -/
def name (l : Lexer) (make : String → Token) : Except Error Lexer := do
  let l ← l.markCandidate
  let c := l.cursor.next
  let chars := c.rest.takeWhile isNameChar
  let c := c.skip chars.length
  if chars.isEmpty || !endsWord c.rest && !c.sees ("?:,]\x7d%@\x60".toList.contains ·) then
    throw (.malformed .badName)
  return { l.push (make (String.ofList chars)) with cursor := c, keyAllowed := false }

/-- Whether a character may stand in a tag. -/
def isTagChar (c : Char) : Bool :=
  c.isAlphanum || "-;/?:@&=+$,_.!~*\x27()[]".toList.contains c

/-- The handle of a tag: one exclamation mark, or a name between two. -/
def tagHandle (c : Cursor) : Except Error (String × Cursor) :=
  let inside := (c.rest.drop 1).takeWhile isNameChar
  if !c.sees (· == '!') then .error (.malformed .badTag)
  else match c.rest.drop (inside.length + 1) with
    | '!' :: _ =>
      .ok (String.ofList (c.rest.take (inside.length + 2)), c.skip (inside.length + 2))
    | _ => if inside.isEmpty then .ok ("!", c.next) else .error (.malformed .badTag)

/-- The characters of a tag. -/
def tagSuffix (c : Cursor) : Except Error (String × Cursor) :=
  let chars := c.rest.takeWhile isTagChar
  if chars.isEmpty then .error (.malformed .badTag)
  else .ok (String.ofList chars, c.skip chars.length)

/-- A tag. -/
def tagAt (c : Cursor) : Except Error (Token × Cursor) := do
  match c.rest.drop 1 with
  | '<' :: _ =>
    let (suffix, c) ← tagSuffix (c.skip 2)
    if c.sees (· == '>') then return (.tag none suffix, c.next) else throw (.malformed .badTag)
  | rest =>
    if endsWord rest then return (.tag none "!", c.next)
    let word := rest.takeWhile fun ch => ch != ' ' && !isBreak ch
    let (handle, c) ← if word.contains '!' then tagHandle c else pure ("!", c.next)
    let (suffix, c) ← tagSuffix c
    return (.tag (some handle) suffix, c)

/-- A tag as a token. -/
def tag (l : Lexer) : Except Error Lexer := do
  let l ← l.markCandidate
  let (t, c) ← tagAt l.cursor
  if !endsField c.rest then throw (.malformed .badTag)
  return { l.push t with cursor := c, keyAllowed := false }

/-! ### Directives -/

/-- Digits. -/
def digits (c : Cursor) : Except Error (Nat × Cursor) :=
  let ds := c.rest.takeWhile Char.isDigit
  let count := ds.length
  if ds.isEmpty then .error (.malformed .badDirective)
  else if Decimal.integerDigitLimit < count then .error (.unprepared (.numeralTooLong count))
  else .ok (ds.foldl (fun n d => n * 10 + (d.toNat - 48)) 0, c.skip count)

/-- What a directive of a name says. -/
def directiveBody (name : String) (c : Cursor) : Except Error (Directive × Cursor) := do
  let c' := c.skipWhile (· == ' ')
  if name = "YAML" then
    let (major, c) ← digits c'
    if !c.sees (· == '.') then throw (.malformed .badDirective)
    let (_, c) ← digits c.next
    if !endsField c.rest then throw (.malformed .badDirective)
    return (.version major, c)
  else if name = "TAG" then
    let (handle, c) ← tagHandle c'
    if !c.sees (· == ' ') then throw (.malformed .badDirective)
    let (beginning, c) ← tagSuffix (c.skipWhile (· == ' '))
    if !endsField c.rest then throw (.malformed .badDirective)
    return (.tagHandle handle beginning, c)
  else return (.other, c.skipWhile (!isBreak ·))

/-- A directive. -/
def directive (l : Lexer) : Except Error Lexer := do
  let l ← l.closeAll.dropCandidate
  let name := (l.cursor.rest.drop 1).takeWhile isNameChar
  let c := l.cursor.skip (name.length + 1)
  if name.isEmpty || !endsField c.rest then throw (.malformed .badDirective)
  let (d, c) ← directiveBody (String.ofList name) c
  let c ← c.skipRestOfLine .badDirective
  return { l.push (.directive d) with cursor := c, keyAllowed := false }

/-! ### Scalars -/

/-- A block scalar. -/
def block (l : Lexer) (fold : Bool) : Except Error Lexer := do
  let l ← l.dropCandidate
  let (text, c) ← blockScalar fold (max 1 l.margin) l.cursor.next
  return { l.push (.scalar false (String.ofList text)) with cursor := c, keyAllowed := true }

/-- A quoted scalar. -/
def quoted (l : Lexer) (double : Bool) : Except Error Lexer := do
  let l ← l.markCandidate
  let (text, c) ← quotedScalar double l.cursor
  return { l.push (.scalar false (String.ofList text)) with cursor := c, keyAllowed := false }

/-- A plain scalar. If it ends on another line, a key may follow. -/
def plain (l : Lexer) : Except Error Lexer := do
  let l ← l.markCandidate
  let (text, crossed, c) := plainScalar l.inFlow l.margin l.cursor
  return { l.push (.scalar true (String.ofList text)) with cursor := c, keyAllowed := crossed }

/-- The characters that a plain scalar does not start with. -/
def indicators : List Char := "-?:,[]\x7b\x7d#&*!|>\x27\"%@\x60".toList

/-- Whether a plain scalar starts with a character before some rest. -/
def startsPlain (l : Lexer) (c : Char) (rest : List Char) : Bool :=
  !(isBlank c || isBreak c || indicators.contains c) ||
    (!endsWord rest && (c == '-' || (!l.inFlow && (c == '?' || c == ':'))))

/-! ### Tokens -/

/-- Reads a token that starts with a character before some rest. -/
def token (l : Lexer) (c : Char) (rest : List Char) : Except Error Lexer :=
  let atMargin := l.cursor.column == 0
  let standsAlone := l.inFlow || endsWord rest
  if c == '%' && atMargin then l.directive
  else if atMargin && startsAlone '-' (c :: rest) then l.separator .documentStart
  else if atMargin && startsAlone '.' (c :: rest) then l.separator .documentEnd
  else if c == '[' then l.openFlow .flowSequenceStart
  else if c == '\x7b' then l.openFlow .flowMappingStart
  else if c == ']' then l.closeFlow .flowSequenceEnd
  else if c == '\x7d' then l.closeFlow .flowMappingEnd
  else if c == ',' then l.comma
  else if c == '-' && endsWord rest then l.item
  else if c == '?' && standsAlone then l.key
  else if c == ':' && standsAlone then l.value
  else if c == '*' then l.name .alias
  else if c == '&' then l.name .anchor
  else if c == '!' then l.tag
  else if c == '|' && !l.inFlow then l.block false
  else if c == '>' && !l.inFlow then l.block true
  else if c == '\x27' then l.quoted false
  else if c == '"' then l.quoted true
  else if l.startsPlain c rest then l.plain
  else .error (.malformed .strangeCharacter)

/-- Reads what comes next: the token that starts here, or the end of the text. -/
def step (l : Lexer) : Except Error Lexer := do
  let l ← (l.skipBlanks (l.cursor.left + 1)).dropStale
  let l := l.closeTo l.cursor.column
  match l.cursor.rest with
  | [] => l.closeAll.dropCandidate
  | c :: rest => l.token c rest

/-- How many tokens are certain: those in front of all candidates, as a key may still be put in
front of each of these. -/
def certain (l : Lexer) : Nat :=
  let pending := (l.outer :: l.inner).filterMap fun c => c.filter fun c => !isStale l.cursor c
  pending.foldl (fun n c => min n c.before) l.number

/-- The lexer at a mishap. Tokens that are not certain are never asked for before it. -/
def breakOff (l : Lexer) (mishap : Mishap) : Lexer :=
  { l with done := .broken mishap :: l.done.drop (l.number - l.certain) }

/-- Reads all tokens, or those up to a mishap. -/
def run : Nat → Lexer → Except Error Lexer
  | 0, l => .ok l
  | fuel + 1, l =>
    match l.step with
    | .ok next => if l.cursor.rest.isEmpty then .ok next else run fuel next
    | .error (.malformed fault) => .error (.malformed fault)
    | .error (.unprepared mishap) => .ok (l.breakOff mishap)

end Lexer

/-- The text after the byte order mark it may begin with. -/
def dropByteOrderMark : List Char → List Char
  | '\uFEFF' :: rest => rest
  | cs => cs

/-- The tokens of a text. -/
def tokens (text : List Char) : Except Error (List Token) := do
  if !text.all isAllowed then throw (.malformed .unprintable)
  let l : Lexer := { cursor := { rest := dropByteOrderMark text } }
  return (← l.run (text.length + 1)).done.reverse

end ThemeSheet.Yaml
