import ThemeSheet.Number.Decimal

/-!
# Faults in a JSON text

A JSON text is refused at one place for one reason. The place is an offset in characters, which
`Place.ofOffset` turns into a line and a column, both counted from one.

A numeral with too many digits is no fault of the syntax: it is a number that is not read. It is
kept apart, because it is not reported as a syntax error.

## Main definitions

* `Json.Fault`, `Json.Fault.wording`; `Json.Place`; `Json.Error`, `Json.Error.message`.
-/

namespace ThemeSheet.Json

/-- Why a text is not JSON. -/
inductive Fault where
  | byteOrderMark
  | expectingValue
  | expectingName
  | expectingColon
  | expectingComma
  | extraData
  | controlCharacter
  | unterminatedString
  | badEscape
  | badUnicodeEscape
deriving DecidableEq, Repr

namespace Fault

/-- The wording of a fault. -/
def wording : Fault → String
  | .byteOrderMark => "Unexpected UTF-8 BOM (decode using utf-8-sig)"
  | .expectingValue => "Expecting value"
  | .expectingName => "Expecting property name enclosed in double quotes"
  | .expectingColon => "Expecting ':' delimiter"
  | .expectingComma => "Expecting ',' delimiter"
  | .extraData => "Extra data"
  | .controlCharacter => "Invalid control character at"
  | .unterminatedString => "Unterminated string starting at"
  | .badEscape => "Invalid \\escape"
  | .badUnicodeEscape => "Invalid \\uXXXX escape"

end Fault

/-- A place in a text. -/
structure Place where
  line : Nat
  column : Nat
  offset : Nat
deriving DecidableEq, Repr

namespace Place

/-- The place reached after passing over characters. -/
def after (start : Place) (passed : List Char) : Place :=
  passed.foldl (fun p c => if c = '\n' then ⟨p.line + 1, 1, p.offset + 1⟩
    else ⟨p.line, p.column + 1, p.offset + 1⟩) start

/-- The place of an offset. -/
def ofOffset (text : List Char) (offset : Nat) : Place :=
  after ⟨1, 1, 0⟩ (text.take offset)

end Place

/-- Why a JSON text is not read. -/
inductive Error where
  /-- The text is not JSON. -/
  | malformed (fault : Fault) (place : Place)
  /-- An integer has too many digits to be read. -/
  | numeralTooLong (digits : Nat)
deriving DecidableEq, Repr

namespace Error

/-- The wording of an error. -/
def message : Error → String
  | .malformed fault place =>
    fault.wording ++ ": line " ++ toString place.line ++ " column " ++ toString place.column ++
      " (char " ++ toString place.offset ++ ")"
  | .numeralTooLong digits => Decimal.tooLongText digits

end Error

end ThemeSheet.Json
