import ThemeSheet.Tree.Spelling

/-!
# Declarations and rules

A declaration is a property with its value, a rule is a selector with declarations, and a stylesheet
is a list of rules written one after the other. Declarations are kept in order and never merged. A
rule without declarations is not written.

Some rules of a stylesheet are fixed texts, so a stylesheet is a list of `Piece`s: rules and texts.

## Main definitions

* `Declaration`, `Rule`, `Piece`, and their texts;
* `cssText`, the text of a tree value in a declaration.
-/

namespace ThemeSheet

/-- A property and its value. -/
structure Declaration where
  name : String
  value : String
deriving DecidableEq, Repr

/-- Declarations under a selector. -/
structure Rule where
  selector : String
  declarations : List Declaration
deriving DecidableEq, Repr

/-- A part of a stylesheet. -/
inductive Piece where
  | rule (rule : Rule)
  | fixed (text : String)
deriving DecidableEq, Repr

namespace Declaration

/-- A declaration as it is written. -/
def text (d : Declaration) : String := d.name ++ ": " ++ d.value ++ ";"

end Declaration

namespace Rule

/-- A rule as it is written; nothing is written for a rule without declarations. -/
def text (r : Rule) : String :=
  if r.declarations.isEmpty then ""
  else r.selector ++ "\x7b" ++ String.join (r.declarations.map Declaration.text) ++ "\x7d"

end Rule

namespace Piece

/-- A part of a stylesheet as it is written. -/
def text : Piece → String
  | .rule r => r.text
  | .fixed s => s

/-- The parts of a stylesheet as they are written. -/
def join (pieces : List Piece) : String := String.join (pieces.map text)

end Piece

/-- The text of a tree value in a declaration: its spelling, but an integral number is written as
the integer it is. -/
def cssText : Value → Except Refusal String
  | .float x => if x.isInteger then integerSpelling x.truncate else .ok (Decimal.text x)
  | v => v.spelling

end ThemeSheet
