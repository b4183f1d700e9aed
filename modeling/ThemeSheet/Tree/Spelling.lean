import ThemeSheet.Number.Decimal
import ThemeSheet.Text.Printable
import ThemeSheet.Tree.Basic

/-!
# The spelling of a value

Slugs, selectors and style values are texts, but a tree can hold anything in their place, so every
value has a spelling. A text is its own spelling; inside a list or a mapping it is quoted, with the
quote that needs no escape if there is one. Numbers are written by their shortest digits, the
constants as `True`, `False` and `None`, and a moment alone in digits, but inside a list or a
mapping as the call that makes it.

A collection inside itself is spelt as three dots between its brackets.

The one value without a spelling is an integer of more than 4300 digits: writing it is refused. A
list or mapping that holds such an integer has no spelling either.

## Main definitions

* `Refusal`, the reasons for which compiling can stop;
* `quoted`, the quoted form of a text;
* `Value.spelling` and `Key.spelling`, and `innerSpelling` for what stands inside a container.
-/

namespace ThemeSheet

/-- Why compiling or cleaning a tree stops. -/
inductive Refusal where
  /-- An integer has too many digits to be written. -/
  | integerTooLong
  /-- A numeral in a style value has too many digits to be read. -/
  | numeralTooLong (digits : Nat)
  /-- A color channel is too large for a binary64 number. -/
  | channelTooLarge
  /-- A value of a kind that JSON does not have. -/
  | noJson (kind : String)
  /-- A key of a kind that JSON does not have. -/
  | noJsonKey (kind : String)
  /-- A collection inside itself, which JSON does not have. -/
  | circular
  /-- A mapping inside itself, which would be gone through without end. -/
  | endless
  /-- Collections inside themselves that have no first difference. -/
  | incomparable
deriving DecidableEq, Repr

namespace Refusal

/-- The wording of a refusal. -/
def message : Refusal → String
  | .integerTooLong =>
    "Exceeds the limit (4300 digits) for integer string conversion; " ++
      "use sys.set_int_max_str_digits() to increase the limit"
  | .numeralTooLong digits => Decimal.tooLongText digits
  | .channelTooLarge => "integer division result too large for a float"
  | .noJson kind => "Object of type " ++ kind ++ " is not JSON serializable"
  | .noJsonKey kind => "keys must be str, int, float, bool or None, not " ++ kind
  | .circular => "Circular reference detected"
  | .endless => "maximum recursion depth exceeded"
  | .incomparable => "maximum recursion depth exceeded in comparison"

end Refusal

/-! ### Quoted texts -/

/-- The last `count` hexadecimal digits of a number. -/
def hexDigits (count n : Nat) : List Char :=
  let ds := Nat.toDigits 16 n
  List.replicate (count - ds.length) '0' ++ ds

/-- A character as it stands between quotes. -/
def quotedChar (quote c : Char) : List Char :=
  if c = quote || c = '\\' then ['\\', c]
  else if c = '\n' then ['\\', 'n']
  else if c = '\r' then ['\\', 'r']
  else if c = '\t' then ['\\', 't']
  else if Text.isPrintable c then [c]
  else if c.toNat < 0x100 then '\\' :: 'x' :: hexDigits 2 c.toNat
  else if c.toNat < 0x10000 then '\\' :: 'u' :: hexDigits 4 c.toNat
  else '\\' :: 'U' :: hexDigits 8 c.toNat

/-- A text between quotes: single ones, unless it holds a single quote and no double one. -/
def quoted (s : String) : String :=
  let cs := s.toList
  let quote := if cs.contains '\x27' && !cs.contains '"' then '"' else '\x27'
  String.ofList (quote :: cs.flatMap (quotedChar quote) ++ [quote])

/-! ### Spellings -/

/-- The decimal digits of an integer, if they are few enough to be written. -/
def integerSpelling (n : Int) : Except Refusal String :=
  match Decimal.intText? n with
  | some s => .ok s
  | none => .error .integerTooLong

/-- The spelling of a truth value. -/
def boolSpelling (b : Bool) : String := if b then "True" else "False"

namespace Key

/-- The spelling of a key inside a mapping. -/
def innerSpelling : Key → Except Refusal String
  | .text s => .ok (quoted s)
  | .null => .ok "None"
  | .bool b => .ok (boolSpelling b)
  | .int n => integerSpelling n
  | .float x => .ok (Decimal.text x)
  | .moment m => .ok m.call

/-- The spelling of a key that stands alone. -/
def spelling : Key → Except Refusal String
  | .text s => .ok s
  | .moment m => .ok m.text
  | k => innerSpelling k

end Key

namespace Value

mutual

/-- The spelling of a value inside a container. The marks are those of the collections around it. -/
def innerSpelling (around : List Mark) : Value → Except Refusal String
  | .null => .ok "None"
  | .bool b => .ok (boolSpelling b)
  | .int n => integerSpelling n
  | .float x => .ok (Decimal.text x)
  | .moment m => .ok m.call
  | .text s => .ok (quoted s)
  | .list vs mark =>
    if Mark.recurs mark around then .ok "[...]"
    else do
      let parts ← itemSpellings (Mark.within mark around) vs
      return "[" ++ ", ".intercalate parts ++ "]"
  | .map es mark =>
    if Mark.recurs mark around then .ok "\x7b...\x7d"
    else do
      let parts ← entrySpellings (Mark.within mark around) es
      return "\x7b" ++ ", ".intercalate parts ++ "\x7d"

/-- The spellings of the items of a list. -/
def itemSpellings (around : List Mark) : List Value → Except Refusal (List String)
  | [] => .ok []
  | v :: vs => do
    let s ← innerSpelling around v
    let rest ← itemSpellings around vs
    return s :: rest

/-- The spellings of the entries of a mapping. -/
def entrySpellings (around : List Mark) : List (Key × Value) → Except Refusal (List String)
  | [] => .ok []
  | (k, v) :: es => do
    let key ← k.innerSpelling
    let s ← innerSpelling around v
    let rest ← entrySpellings around es
    return (key ++ ": " ++ s) :: rest

end

/-- The name of the kind of a value. -/
def kind : Value → String
  | .null => "NoneType"
  | .bool _ => "bool"
  | .int _ => "int"
  | .float _ => "float"
  | .moment m => m.kind
  | .text _ => "str"
  | .list _ _ => "list"
  | .map _ _ => "dict"

/-- The spelling of a value that stands alone. A text is its own. -/
def spelling : Value → Except Refusal String
  | .text s => .ok s
  | .moment m => .ok m.text
  | v => innerSpelling [] v

end Value

end ThemeSheet
