import ThemeSheet.Json.Error
import ThemeSheet.Number.Decimal
import ThemeSheet.Number.Numeral
import ThemeSheet.Tree.Basic

/-!
# Reading JSON

The reader keeps what a theme tree keeps: the order of the keys, integers of any size apart from
floating-point numbers, and the last of several values under one key. Beyond the standard it reads
the three words `NaN`, `Infinity` and `-Infinity`.

Every step returns what is left of the text. A fault records how much was left where it arose, and
`read` turns that into a place. The steps for values, members and items take fuel; one unit is
spent for every call, a call passes over a character or hands over to one that does, and `read`
gives two units for each character.

## Main definitions

* `Json.read`.
-/

namespace ThemeSheet.Json

/-- Where reading stops: a fault with the number of characters left, or a numeral of too many
digits. -/
inductive Stop where
  | fault (fault : Fault) (left : Nat)
  | numeralTooLong (digits : Nat)

/-- A step returns something and the rest of the text. -/
abbrev Step (α : Type) := Except Stop (α × List Char)

/-- Whether a character may stand between the parts of a text. -/
def isSpace (c : Char) : Bool := c == ' ' || c == '\t' || c == '\n' || c == '\r'

/-- The text after the space it begins with. -/
def skipSpace (cs : List Char) : List Char := cs.dropWhile isSpace

/-! ### Strings -/

/-- The value of a hexadecimal digit. -/
def hexValue? (c : Char) : Option Nat :=
  if '0' ≤ c ∧ c ≤ '9' then some (c.toNat - 48)
  else if 'a' ≤ c ∧ c ≤ 'f' then some (c.toNat - 87)
  else if 'A' ≤ c ∧ c ≤ 'F' then some (c.toNat - 55)
  else none

/-- The value of hexadecimal digits. -/
def hexNumber? (cs : List Char) : Option Nat :=
  cs.foldl (fun acc c => do return (← acc) * 16 + (← hexValue? c)) (some 0)

/-- The character of a code unit; a unit that is half of a pair has none of its own. -/
def unitChar (n : Nat) : Char :=
  if 0xD800 ≤ n ∧ n ≤ 0xDFFF then '\uFFFD' else Char.ofNat n

/-- The character that two code units stand for, if they are a pair. -/
def pairChar? (high low : Nat) : Option Char :=
  if 0xD800 ≤ high ∧ high ≤ 0xDBFF ∧ 0xDC00 ≤ low ∧ low ≤ 0xDFFF then
    some (Char.ofNat (0x10000 + (high - 0xD800) * 0x400 + (low - 0xDC00)))
  else none

/-- The character of four hexadecimal digits after `\u`, and how many characters it took from the
`u` on. A text may not end with the digits: something must close it. -/
def unicodeEscape (digits : List Char) : Except Stop (Char × Nat) :=
  if (digits.take 5).length < 5 then .error (.fault .badUnicodeEscape (digits.length + 1))
  else match hexNumber? (digits.take 4) with
    | none => .error (.fault .badUnicodeEscape (digits.length + 1))
    | some unit =>
      match digits.drop 4 with
      | '\\' :: 'u' :: second =>
        if 0xD800 ≤ unit ∧ unit ≤ 0xDBFF ∧ 5 ≤ (second.take 5).length then
          match hexNumber? (second.take 4) with
          | none => .error (.fault .badUnicodeEscape (second.length + 1))
          | some low =>
            match pairChar? unit low with
            | some c => .ok (c, 11)
            | none => .ok (unitChar unit, 5)
        else .ok (unitChar unit, 5)
      | _ => .ok (unitChar unit, 5)

/-- The character of an escape, and how many characters it took after the backslash. `opening` is
what is left at the opening quote of the string. -/
def escape (opening : List Char) : List Char → Except Stop (Char × Nat)
  | [] => .error (.fault .unterminatedString opening.length)
  | 'u' :: digits => unicodeEscape digits
  | c :: rest =>
    match c with
    | '"' => .ok ('"', 1)
    | '\\' => .ok ('\\', 1)
    | '/' => .ok ('/', 1)
    | 'b' => .ok ('\x08', 1)
    | 'f' => .ok ('\x0c', 1)
    | 'n' => .ok ('\n', 1)
    | 'r' => .ok ('\r', 1)
    | 't' => .ok ('\t', 1)
    | _ => .error (.fault .badEscape (rest.length + 2))

/-- The rest of a string, up to its closing quote. `opening` is what is left at the opening quote,
`skip` counts the characters of an escape still to be passed over, and `done` is the text so far in
reverse. -/
def stringTail (opening : List Char) : Nat → List Char → List Char → Step String
  | _, _, [] => .error (.fault .unterminatedString opening.length)
  | skip + 1, done, _ :: rest => stringTail opening skip done rest
  | 0, done, c :: rest =>
    if c = '"' then .ok (String.ofList done.reverse, rest)
    else if c = '\\' then
      match escape opening rest with
      | .error stop => .error stop
      | .ok (d, used) => stringTail opening used (d :: done) rest
    else if c.toNat < 32 then .error (.fault .controlCharacter (rest.length + 1))
    else stringTail opening 0 (c :: done) rest

/-! ### Numbers -/

/-- A number whose whole part has been read. -/
def numberAfter (negative : Bool) (whole rest : List Char) : Step Value :=
  let (fraction, rest) := Numeral.fraction rest
  let (exponent, rest) := Numeral.exponent rest
  if fraction.isEmpty && exponent.isNone then
    if Decimal.integerDigitLimit < whole.length then .error (.numeralTooLong whole.length)
    else .ok (.int (Binary64.signed negative (Numeral.value whole)), rest)
  else .ok (.float (Numeral.float negative whole fraction exponent), rest)

/-- A number. -/
def number (cs : List Char) : Step Value :=
  let (negative, body) := match cs with
    | '-' :: r => (true, r)
    | r => (false, r)
  match body with
  | '0' :: rest => numberAfter negative ['0'] rest
  | c :: _ =>
    if '1' ≤ c ∧ c ≤ '9' then
      let (whole, rest) := Numeral.digits body
      numberAfter negative whole rest
    else .error (.fault .expectingValue cs.length)
  | [] => .error (.fault .expectingValue cs.length)

/-! ### Values -/

/-- The words that stand for values. -/
def words : List (List Char × Value) :=
  [("null".toList, .null), ("true".toList, .bool true), ("false".toList, .bool false),
   ("NaN".toList, .float (.nan false)), ("Infinity".toList, .float (.infinite false)),
   ("-Infinity".toList, .float (.infinite true))]

/-- The word a text begins with, as the value it stands for, and the rest. -/
def word? (cs : List Char) : Option (Value × List Char) :=
  words.findSome? fun entry =>
    if entry.1.isPrefixOf cs then some (entry.2, cs.drop entry.1.length) else none

mutual

/-- A value. -/
def value : Nat → List Char → Step Value
  | 0, cs => .error (.fault .expectingValue cs.length)
  | fuel + 1, cs =>
    match cs with
    | '"' :: rest =>
      match stringTail cs 0 [] rest with
      | .ok (s, rest) => .ok (.text s, rest)
      | .error stop => .error stop
    | '\x7b' :: rest =>
      match skipSpace rest with
      | '\x7d' :: rest => .ok (.map [], rest)
      | rest => members fuel [] rest
    | '[' :: rest =>
      match skipSpace rest with
      | ']' :: rest => .ok (.list [], rest)
      | rest => items fuel [] rest
    | _ =>
      match word? cs with
      | some found => .ok found
      | none => number cs

/-- The members of an object from a name on. -/
def members : Nat → Entries → List Char → Step Value
  | 0, _, cs => .error (.fault .expectingName cs.length)
  | fuel + 1, done, cs =>
    match cs with
    | '"' :: rest =>
      match stringTail cs 0 [] rest with
      | .error stop => .error stop
      | .ok (name, rest) =>
        match skipSpace rest with
        | ':' :: rest =>
          match value fuel (skipSpace rest) with
          | .error stop => .error stop
          | .ok (v, rest) =>
            let done := Entries.insert (.text name) v done
            match skipSpace rest with
            | '\x7d' :: rest => .ok (.map done, rest)
            | ',' :: rest => members fuel done (skipSpace rest)
            | rest => .error (.fault .expectingComma rest.length)
        | rest => .error (.fault .expectingColon rest.length)
    | _ => .error (.fault .expectingName cs.length)

/-- The items of an array from an item on, the earlier ones in reverse. -/
def items : Nat → List Value → List Char → Step Value
  | 0, _, cs => .error (.fault .expectingValue cs.length)
  | fuel + 1, done, cs =>
    match value fuel cs with
    | .error stop => .error stop
    | .ok (v, rest) =>
      match skipSpace rest with
      | ']' :: rest => .ok (.list (v :: done).reverse, rest)
      | ',' :: rest => items fuel (v :: done) (skipSpace rest)
      | rest => .error (.fault .expectingComma rest.length)

end

/-- The value of a whole text. -/
def readSteps (text : List Char) : Except Stop Value :=
  match text with
  | '\uFEFF' :: _ => .error (.fault .byteOrderMark text.length)
  | _ =>
    match value (2 * text.length + 2) (skipSpace text) with
    | .error stop => .error stop
    | .ok (v, rest) =>
      match skipSpace rest with
      | [] => .ok v
      | rest => .error (.fault .extraData rest.length)

/-- The value of a JSON text. -/
def read (text : List Char) : Except Error Value :=
  match readSteps text with
  | .ok v => .ok v
  | .error (.numeralTooLong digits) => .error (.numeralTooLong digits)
  | .error (.fault fault left) =>
    .error (.malformed fault (Place.ofOffset text (text.length - left)))

end ThemeSheet.Json
