import ThemeSheet.Number.Decimal
import ThemeSheet.Number.Numeral
import ThemeSheet.Text.Chars
import ThemeSheet.Yaml.Moment
import ThemeSheet.Yaml.ScalarText

/-!
# What a plain YAML scalar means

A plain scalar is the null value, a truth value, a number, one of two marks for keys, or else the
text that it is. Numbers have underscores for the eye, which count for nothing. An integer is
decimal, or has a base by what it begins with: `0b` for two, `0x` for sixteen, a further zero for
eight. Numbers with colons have sixty as their base, like the minutes and seconds of a time. A
floating-point number always has a point, and a sign in its exponent. What is written like a date,
or like a date with a time, is one.

## Main definitions

* `Meaning`, `Plain.meaning`;
* `Plain.int`, `Plain.float`, the values of numbers.
-/

namespace ThemeSheet.Yaml

open Text (isAsciiDigit)

/-- What a plain scalar means. -/
inductive Meaning where
  | null
  | bool (b : Bool)
  | int
  | float
  | moment (written : WrittenMoment)
  /-- The mark of a key whose value is merged into the mapping. -/
  | merge
  /-- The mark of a key for the value itself. -/
  | self
  | text
deriving DecidableEq, Repr

namespace Plain

/-! ### Words -/

/-- The words for truth. -/
def trueWords : List String :=
  ["yes", "Yes", "YES", "true", "True", "TRUE", "on", "On", "ON"]

/-- The words for falsehood. -/
def falseWords : List String :=
  ["no", "No", "NO", "false", "False", "FALSE", "off", "Off", "OFF"]

/-- The words for the null value. -/
def nullWords : List String := ["", "~", "null", "Null", "NULL"]

/-! ### Shapes of numbers -/

/-- Whether a character is a digit or an underscore. -/
def isSpacedDigit (c : Char) : Bool := isAsciiDigit c || c == '_'

/-- Whether a character is an octal digit or an underscore. -/
def isSpacedOctal (c : Char) : Bool := (decide ('0' ≤ c) && decide (c ≤ '7')) || c == '_'

/-- Whether a character is a binary digit or an underscore. -/
def isSpacedBinary (c : Char) : Bool := c == '0' || c == '1' || c == '_'

/-- Whether a character is a hexadecimal digit or an underscore. -/
def isSpacedHex (c : Char) : Bool := (hexValue? c).isSome || c == '_'

/-- The text after a sign. -/
def unsigned (cs : List Char) : List Char := (Numeral.sign cs).2

/-- Whether a text is a digit and further digits and underscores. -/
def isWhole : List Char → Bool
  | c :: rest => isAsciiDigit c && rest.all isSpacedDigit
  | [] => false

/-- Whether a text is a number below sixty. -/
def isSixtieth : List Char → Bool
  | [d] => isAsciiDigit d
  | [t, d] => decide ('0' ≤ t) && decide (t ≤ '5') && isAsciiDigit d
  | _ => false

/-- Whether a text is a whole number and one or more numbers below sixty, between colons. -/
def isTimed (cs : List Char) : Bool :=
  match Text.splitOn ':' cs with
  | whole :: part :: parts => isWhole whole && (part :: parts).all isSixtieth
  | _ => false

/-- Whether a text is an integer. -/
def isInt (cs : List Char) : Bool :=
  match unsigned cs with
  | ['0'] => true
  | '0' :: 'b' :: c :: rest => (c :: rest).all isSpacedBinary
  | '0' :: 'x' :: c :: rest => (c :: rest).all isSpacedHex
  | '0' :: rest => rest.all isSpacedOctal
  | body => isWhole body || isTimed body

/-- Whether a text is an exponent, or nothing. -/
def isExponent : List Char → Bool
  | [] => true
  | [_, _] => false
  | e :: s :: ds => (e == 'e' || e == 'E') && (s == '+' || s == '-') && ds.all isAsciiDigit
  | _ => false

/-- Whether a text is what may follow a point: digits, underscores and an exponent. -/
def isFraction (cs : List Char) : Bool := isExponent (cs.dropWhile isSpacedDigit)

/-- Whether a text is a floating-point number. -/
def isFloat (cs : List Char) : Bool :=
  let body := unsigned cs
  let whole := body.takeWhile (· ≠ '.')
  match body.drop whole.length with
  | '.' :: fraction =>
    if whole.isEmpty then
      [".inf", ".Inf", ".INF"].contains (String.ofList body) ||
        (body == cs && ([".nan", ".NaN", ".NAN"].contains (String.ofList body) ||
          (fraction.head?.any isAsciiDigit && isFraction fraction)))
    else (isWhole whole && isFraction fraction) || (isTimed whole && fraction.all isSpacedDigit)
  | _ => false

/-- What a plain scalar means. -/
def meaning (s : String) : Meaning :=
  if nullWords.contains s then .null
  else if trueWords.contains s then .bool true
  else if falseWords.contains s then .bool false
  else if isFloat s.toList then .float
  else if isInt s.toList then .int
  else if s = "<<" then .merge
  else if s = "=" then .self
  else match implicitMoment? s.toList with
    | some written => .moment written
    | none => .text

/-! ### Values of numbers -/

/-- The text without its underscores. -/
def withoutSpacing (cs : List Char) : List Char := cs.filter (· ≠ '_')

/-- The value of digits in a base. -/
def inBase (base : Nat) (ds : List Char) : Except Mishap Nat :=
  if ds.isEmpty then .error (.noDigits base)
  else .ok (ds.foldl (fun n d => n * base + (hexValue? d).getD 0) 0)

/-- The value of decimal digits, if they are few enough to be read. -/
def decimal (ds : List Char) : Except Mishap Nat :=
  if Decimal.integerDigitLimit < ds.length then .error (.numeralTooLong ds.length)
  else .ok (Numeral.value ds)

/-- The value of an integer without its sign. -/
def magnitude (cs : List Char) : Except Mishap Nat :=
  match cs with
  | '0' :: 'b' :: ds => inBase 2 ds
  | '0' :: 'x' :: ds => inBase 16 ds
  | '0' :: _ => inBase 8 cs
  | _ => (Text.splitOn ':' cs).foldlM (fun n part => do return n * 60 + (← decimal part)) 0

/-- The value of an integer. -/
def int (s : String) : Except Mishap Int := do
  let (negative, body) := Numeral.sign (withoutSpacing s.toList)
  return Binary64.signed negative (← magnitude body)

/-- The number of a numeral with a point. -/
def pointed (cs : List Char) : Binary64 :=
  let (whole, rest) := Numeral.digits cs
  let (fraction, rest) := match rest with
    | '.' :: rest => Numeral.digits rest
    | rest => ([], rest)
  Numeral.float false whole fraction (Numeral.exponent rest).1

/-- The sum of parts with ascending powers of sixty, the last part first. A power has to be a
number of its own, even for a part that is zero. -/
def sumSixtieths : Nat → Binary64 → List (List Char) → Except Mishap Binary64
  | _, sum, [] => .ok sum
  | unit, sum, part :: parts =>
    match Binary64.ofNat unit with
    | .infinite _ => .error .powerTooLarge
    | power => sumSixtieths (unit * 60) (sum.add ((pointed part).mul power)) parts

/-- The magnitude of a floating-point number in small letters. -/
def floatMagnitude (small : List Char) : Except Mishap Binary64 :=
  if small = ".inf".toList then .ok (.infinite false)
  else if small.contains ':' then sumSixtieths 1 (.ofNat 0) (Text.splitOn ':' small).reverse
  else .ok (pointed small)

/-- The value of a floating-point number. Not-a-number has a sign, as the difference of infinities
has, and keeps it. -/
def float (s : String) : Except Mishap Binary64 := do
  let (negative, body) := Numeral.sign (withoutSpacing s.toList)
  let small := Text.lowerAscii body
  if small = ".nan".toList then return .nan true
  else
    let x ← floatMagnitude small
    return if negative then x.neg else x

end Plain

end ThemeSheet.Yaml
