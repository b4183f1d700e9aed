import ThemeSheet.Yaml.Token

/-!
# A place in a YAML text

A cursor is a place in a text: what is left of the text and how much that is, and the line, the
column and the offset of the place. All reading is moving a cursor forward.

## Main definitions

* `Cursor`, with `skip`, `skipWhile` and `lineBreak`;
* `isBreak`, `endsWord`, `isDocumentMark`.
-/

namespace ThemeSheet.Yaml

/-! ### Characters -/

/-- Whether a character breaks a line. -/
def isBreak (c : Char) : Bool :=
  c == '\n' || c == '\r' || c == '\x85' || c == '\u2028' || c == '\u2029'

/-- Whether a character is a blank inside a line. -/
def isBlank (c : Char) : Bool := c == ' ' || c == '\t'

/-- Whether a text begins with a character of a class, or is at its end. -/
def endsOr (p : Char → Bool) : List Char → Bool
  | [] => true
  | c :: _ => p c

/-- Whether a line ends here. -/
def endsLine (cs : List Char) : Bool := endsOr isBreak cs

/-- Whether a line ends here or a space follows. -/
def endsField (cs : List Char) : Bool := endsOr (fun c => c == ' ' || isBreak c) cs

/-- Whether a line ends here or a blank follows. -/
def endsWord (cs : List Char) : Bool := endsOr (fun c => isBlank c || isBreak c) cs

/-- Whether three characters stand alone at the beginning of a text. -/
def startsAlone (mark : Char) : List Char → Bool
  | a :: b :: c :: rest => a == mark && b == mark && c == mark && endsWord rest
  | _ => false

/-- Whether a text begins with a line that separates documents. -/
def isDocumentMark (cs : List Char) : Bool := startsAlone '-' cs || startsAlone '.' cs

/-- Whether a character may stand in a text. -/
def isAllowed (c : Char) : Bool :=
  let n := c.toNat
  n == 9 || n == 10 || n == 13 || (decide (0x20 ≤ n) && decide (n ≤ 0x7E)) || n == 0x85 ||
    (decide (0xA0 ≤ n) && decide (n ≤ 0xFFFD)) || decide (0x10000 ≤ n)

/-- Whether a character may stand in the name of an anchor or of a tag handle. -/
def isNameChar (c : Char) : Bool := c.isAlphanum || c == '-' || c == '_'

/-! ### Cursors -/

/-- A place in a text. -/
structure Cursor where
  rest : List Char
  /-- The number of characters that are left. -/
  left : Nat := rest.length
  line : Nat := 0
  column : Nat := 0
  index : Nat := 0
deriving Repr

namespace Cursor

/-- The cursor after the next character. A byte order mark takes no column. -/
def next (c : Cursor) : Cursor :=
  match c.rest with
  | [] => c
  | ch :: rest =>
    if isBreak ch && !(ch == '\r' && rest.head? == some '\n') then
      ⟨rest, c.left - 1, c.line + 1, 0, c.index + 1⟩
    else
      let column := if ch = '\uFEFF' then c.column else c.column + 1
      ⟨rest, c.left - 1, c.line, column, c.index + 1⟩

/-- The cursor after some characters. -/
def skip : Nat → Cursor → Cursor
  | 0, c => c
  | n + 1, c => skip n c.next

/-- The cursor after the characters of a class. -/
def skipWhile (p : Char → Bool) (c : Cursor) : Cursor := c.skip (c.rest.takeWhile p).length

/-- Whether a class has the next character. -/
def sees (c : Cursor) (p : Char → Bool) : Bool := (c.rest.head?).any p

/-- Whether nothing is left. -/
def atEnd (c : Cursor) : Bool := c.rest.isEmpty

/-- What a line break stands for, if one comes next, and the cursor after it. Only the separators of
lines and paragraphs stand for themselves; every other break is a line feed. -/
def lineBreak (c : Cursor) : List Char × Cursor :=
  match c.rest with
  | '\r' :: '\n' :: _ => (['\n'], c.skip 2)
  | ch :: _ =>
    if ch = '\u2028' ∨ ch = '\u2029' then ([ch], c.next)
    else if isBreak ch then (['\n'], c.next)
    else ([], c)
  | [] => ([], c)

/-- The cursor after a comment, if one comes next. -/
def skipComment (c : Cursor) : Cursor :=
  if c.sees (· == '#') then c.skipWhile (!isBreak ·) else c

/-- The cursor after the rest of a line on which nothing but a comment may stand. -/
def skipRestOfLine (c : Cursor) (fault : Fault) : Except Error Cursor :=
  let c := (c.skipWhile (· == ' ')).skipComment
  if endsLine c.rest then .ok c.lineBreak.2 else .error (.malformed fault)

/-- The cursor after the spaces before a column. -/
def skipSpacesTo (column : Nat) (c : Cursor) : Cursor :=
  c.skip (min (c.rest.takeWhile (· == ' ')).length (column - c.column))

end Cursor

end ThemeSheet.Yaml
