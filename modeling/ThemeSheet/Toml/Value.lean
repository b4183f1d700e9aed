import ThemeSheet.Number.Decimal
import ThemeSheet.Toml.Moment
import ThemeSheet.Tree.Path

/-!
# Values in a TOML text

A value is a string, a truth value, a number, a date or time, an array or an inline table. Digits
may have single underscores between them. An integer in decimal has a limit to its digits, which is
no matter of the syntax and is kept apart.

An inline table has keys of several parts as well, which make further tables; but nothing can be
added to an inline value once it has been closed.

The steps for values take fuel, of which every round spends a unit; a round passes over a character
or hands over to one that does.

## Main definitions

* `Stop`; `value`, `pair`;
* `changeAt`, the change of the table that a key leads to.
-/

namespace ThemeSheet.Toml

/-- Why a text has no value: it is refused, or it holds an integer of too many digits. -/
inductive Stop where
  | malformed (fault : Fault)
  | numeralTooLong (digits : Nat)
deriving DecidableEq, Repr

/-- A fault as a reason to stop. -/
def lift {α : Type} : Except Fault α → Except Stop α
  | .ok a => .ok a
  | .error fault => .error (.malformed fault)

/-! ### Numbers -/

/-- The digits of a class that a text goes on with, and the rest. A single underscore may stand
before a digit. -/
def spacedDigits (p : Char → Bool) : List Char → List Char × List Char
  | '_' :: c :: rest =>
    if p c then (c :: (spacedDigits p rest).1, (spacedDigits p rest).2) else ([], '_' :: c :: rest)
  | c :: rest => if p c then (c :: (spacedDigits p rest).1, (spacedDigits p rest).2)
    else ([], c :: rest)
  | [] => ([], [])

/-- Digits of a class; the first has no underscore before it. -/
def digitsOf (p : Char → Bool) (cs : List Char) : List Char × List Char :=
  if (cs.head?).any p then spacedDigits p cs else ([], cs)

/-- The bases other than ten, with their letters. -/
def bases : List (Char × Nat) := [('x', 16), ('b', 2), ('o', 8)]

/-- Whether a character is a digit in a base. -/
def isDigitIn (base : Nat) (c : Char) : Bool := (hexValue? c).any (decide <| · < base)

/-- An integer in a base other than ten. -/
def basedInt? (cs : List Char) : Option (Int × List Char) :=
  match cs with
  | '0' :: letter :: rest =>
    (bases.lookup letter).bind fun base =>
      match digitsOf (isDigitIn base) rest with
      | ([], _) => none
      | (ds, rest) => some ((ds.foldl (fun n d => n * base + (hexValue? d).getD 0) 0 : Nat), rest)
  | _ => none

/-- The whole part of a decimal number. -/
def wholePart : List Char → List Char × List Char
  | '0' :: rest => (['0'], rest)
  | cs => digitsOf Text.isAsciiDigit cs

/-- A fraction, if a point with a digit comes next. -/
def fractionPart (cs : List Char) : List Char × List Char :=
  match cs with
  | '.' :: rest => match digitsOf Text.isAsciiDigit rest with
    | ([], _) => ([], cs)
    | found => found
  | _ => ([], cs)

/-- An exponent, if its mark and a digit come next. -/
def exponentPart (cs : List Char) : Option Int × List Char :=
  match cs with
  | c :: rest =>
    if c = 'e' ∨ c = 'E' then
      let (negative, body) := Numeral.sign rest
      match digitsOf Text.isAsciiDigit body with
      | ([], _) => (none, cs)
      | (ds, rest) => (some (Binary64.signed negative (Numeral.value ds)), rest)
    else (none, cs)
  | [] => (none, cs)

/-- The words for numbers that have no digits. -/
def numberWords : List (List Char × Binary64) :=
  [("inf".toList, .infinite false), ("+inf".toList, .infinite false),
   ("-inf".toList, .infinite true), ("nan".toList, .nan false), ("+nan".toList, .nan false),
   ("-nan".toList, .nan true)]

/-- A decimal number. -/
def decimalNumber (cs : List Char) : Except Stop (Taken Value) :=
  let (negative, body) := Numeral.sign cs
  match wholePart body with
  | ([], _) =>
    match numberWords.find? fun entry => entry.1.isPrefixOf cs with
    | some (word, x) => .ok (.float x, cs.drop word.length)
    | none => .error (.malformed .badValue)
  | (whole, rest) =>
    let (fraction, rest) := fractionPart rest
    let (exponent, rest) := exponentPart rest
    if fraction.isEmpty && exponent.isNone then
      if Decimal.integerDigitLimit < whole.length then .error (.numeralTooLong whole.length)
      else .ok (.int (Binary64.signed negative (Numeral.value whole)), rest)
    else .ok (.float (Numeral.float negative whole fraction exponent), rest)

/-- A truth value, if one comes next. -/
def bool? (cs : List Char) : Option (Value × List Char) :=
  match Text.afterStart? "true".toList cs, Text.afterStart? "false".toList cs with
  | some rest, _ => some (.bool true, rest)
  | none, some rest => some (.bool false, rest)
  | none, none => none

/-- A value that is no array and no inline table. -/
def scalar (cs : List Char) : Except Stop (Taken Value) :=
  match string? cs, bool? cs, moment? cs, basedInt? cs with
  | some step, _, _, _ => do let (s, rest) ← lift step; return (.text s, rest)
  | none, some found, _, _ => .ok found
  | none, none, some step, _ => do let (m, rest) ← lift step; return (.moment m, rest)
  | none, none, none, some (n, rest) => .ok (.int n, rest)
  | none, none, none, none => decimalNumber cs

/-! ### Tables -/

/-- Changes the table that a key leads to; tables that are missing on the way are made. If `lists`
holds, the way leads on from the last item of an array. -/
def changeAt (lists : Bool) (change : Entries → Except Fault Entries) :
    List String → Entries → Except Fault Entries
  | [], es => change es
  | name :: rest, es => do
    let put v := Entries.insert (.text name) v es
    match Entries.named? name es with
    | none => return put (.map (← changeAt lists change rest []))
    | some (.map sub _) => return put (.map (← changeAt lists change rest sub))
    | some (.list items _) =>
      match lists, items.getLast? with
      | true, some (.map sub _) =>
        return put (.list (items.dropLast ++ [.map (← changeAt lists change rest sub)]))
      | _, _ => .error .overwritten
    | some _ => .error .overwritten

/-- Writes a value under a name that is not there yet. -/
def define (name : String) (v : Value) (es : Entries) : Except Fault Entries :=
  if (Entries.named? name es).isSome then .error .overwritten
  else .ok (Entries.insert (.text name) v es)

/-- Writes a value under a key of one or more parts. -/
def defineAt (lists : Bool) (key : List String) (v : Value) (es : Entries) :
    Except Fault Entries :=
  changeAt lists (define (key.getLastD "") v) key.dropLast es

/-- Whether nothing can be added to a value once it has been read. -/
def isClosed : Value → Bool
  | .list _ _ => true
  | .map _ _ => true
  | _ => false

/-- The text after blanks, line breaks and comments. -/
def skipSpace : Nat → List Char → Except Fault (List Char)
  | 0, cs => .ok cs
  | fuel + 1, cs => do
    match cs.dropWhile isSpace with
    | '#' :: rest => skipSpace fuel (← skipComment ('#' :: rest))
    | rest => return rest

/-- The text after everything that may stand between the items of an array. -/
def betweenItems (cs : List Char) : Except Stop (List Char) := lift (skipSpace (cs.length + 1) cs)

mutual

/-- A value. -/
def value : Nat → List Char → Except Stop (Taken Value)
  | 0, _ => .error (.malformed .badValue)
  | fuel + 1, cs =>
    match cs with
    | '[' :: rest => do
      match ← betweenItems rest with
      | ']' :: rest => return (.list [], rest)
      | rest => items fuel [] rest
    | '\x7b' :: rest =>
      match skipBlanks rest with
      | '\x7d' :: rest => .ok (.map [], rest)
      | rest => members fuel [] [] rest
    | _ => scalar cs

/-- The items of an array from an item on, the earlier ones in reverse. -/
def items : Nat → List Value → List Char → Except Stop (Taken Value)
  | 0, _, _ => .error (.malformed .unclosedArray)
  | fuel + 1, done, cs => do
    let (v, rest) ← value fuel cs
    match ← betweenItems rest with
    | ']' :: rest => return (.list (v :: done).reverse, rest)
    | ',' :: rest =>
      match ← betweenItems rest with
      | ']' :: rest => return (.list (v :: done).reverse, rest)
      | rest => items fuel (v :: done) rest
    | _ => .error (.malformed .unclosedArray)

/-- The members of an inline table from a key on, with the keys of the closed values among the
earlier ones. -/
def members : Nat → Entries → List (List String) → List Char → Except Stop (Taken Value)
  | 0, _, _, _ => .error (.malformed .unclosedTable)
  | fuel + 1, done, closed, cs => do
    let ((key, v), rest) ← pair fuel cs
    if closed.any fun c => c.isPrefixOf key then .error (.malformed .frozen)
    else
      let done ← lift (defineAt false key v done)
      match skipBlanks rest with
      | '\x7d' :: rest => return (.map done, rest)
      | ',' :: rest =>
        members fuel done (if isClosed v then key :: closed else closed) (skipBlanks rest)
      | _ => .error (.malformed .unclosedTable)

/-- A key with a value. -/
def pair : Nat → List Char → Except Stop (Taken (List String × Value))
  | 0, _ => .error (.malformed .badValue)
  | fuel + 1, cs => do
    let (k, rest) ← lift (key cs)
    match rest with
    | '=' :: rest =>
      let (v, rest) ← value fuel (skipBlanks rest)
      return ((k, v), rest)
    | _ => .error (.malformed .missingEquals)

end

end ThemeSheet.Toml
