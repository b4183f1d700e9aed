import ThemeSheet.Number.Binary64

/-!
# Tokens of style values

A style value is a forest of tokens: atoms, and blocks that hold tokens of their own, which are
brackets or functions. The lexer produces a flat list first, in which a block has an opening and a
closing lexeme; `Token.nest` builds the forest from it.

A closing bracket closes the innermost open block if it fits, and is a fault otherwise. At the end
of the text every open block ends too.

## Main definitions

* `Css.Atom`, `Css.Opening`, `Css.Lexeme`, `Css.Token`, `Css.nest`.
-/

namespace ThemeSheet.Css

/-- A number with, if it is written as an integer, that integer. -/
structure Number where
  value : Binary64
  integer : Option Int
deriving DecidableEq, Repr

/-- A token that holds no others. -/
inductive Atom where
  | blank
  | comment
  | ident (name : String)
  | atKeyword (name : String)
  | hash (name : String)
  | string (text : String)
  | url (target : String)
  | number (n : Number)
  | percentage (n : Number)
  | dimension (n : Number) (unit : String)
  | unicodeRange
  | literal (text : String)
  /-- What is no token. -/
  | fault
deriving DecidableEq, Repr

/-- The kinds of brackets. -/
inductive Bracket where
  | round
  | square
  | curly
deriving DecidableEq, Repr

/-- What opens a block. -/
inductive Opening where
  | function (name : String)
  | bracket (kind : Bracket)
deriving DecidableEq, Repr

/-- The bracket that closes a block. -/
def Opening.closer : Opening → Bracket
  | .function _ => .round
  | .bracket kind => kind

/-- A part of a text, before blocks are built. -/
inductive Lexeme where
  | atom (atom : Atom)
  | opening (opening : Opening)
  | closing (kind : Bracket)
deriving DecidableEq, Repr

/-- A token: an atom, or a block with its content. -/
inductive Token where
  | atom (atom : Atom)
  | block (opening : Opening) (content : List Token)
deriving Repr

/-- A block that is still open: what opened it, and the tokens before it in reverse. -/
structure OpenBlock where
  opening : Opening
  before : List Token

/-- The tokens of a level in reverse, once the open blocks have ended. -/
def endBlocks : List OpenBlock → List Token → List Token
  | [], done => done
  | b :: rest, done => endBlocks rest (.block b.opening done.reverse :: b.before)

/-- The tokens in reverse, with blocks that are open around them. -/
def nestUnder : List OpenBlock → List Token → List Lexeme → List Token
  | stack, done, [] => endBlocks stack done
  | stack, done, .atom a :: rest => nestUnder stack (.atom a :: done) rest
  | stack, done, .opening o :: rest => nestUnder (⟨o, done⟩ :: stack) [] rest
  | stack, done, .closing kind :: rest =>
    match stack with
    | b :: below =>
      if b.opening.closer = kind then
        nestUnder below (.block b.opening done.reverse :: b.before) rest
      else nestUnder stack (.atom .fault :: done) rest
    | [] => nestUnder [] (.atom .fault :: done) rest

/-- The forest of a list of lexemes. -/
def nest (lexemes : List Lexeme) : List Token := (nestUnder [] [] lexemes).reverse

end ThemeSheet.Css
