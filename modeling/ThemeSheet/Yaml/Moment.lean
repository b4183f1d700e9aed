import ThemeSheet.Number.Numeral
import ThemeSheet.Tree.Moment

/-!
# Dates and times in a YAML text

A day is a year of four digits, a month and a day. A time may follow it after a `t` or after blanks,
and an offset after the time: a `Z`, or a sign with hours and perhaps minutes. A month, a day and
the hours may have one digit instead of two, but a day that stands alone may not, unless its tag
says what it is.

Whether there is such a moment is another question, which is asked when its value is wanted.

## Main definitions

* `WrittenMoment`, `WrittenMoment.value`;
* `writtenMoment?`, `implicitMoment?`.
-/

namespace ThemeSheet.Yaml

/-- A day, with the time and the offset that are written after it. -/
structure WrittenMoment where
  day : Date
  time : Option (DayTime × Option Int) := none
deriving DecidableEq, Repr

/-- The moment that is written, if there is one. The offset is looked at first. -/
def WrittenMoment.value (written : WrittenMoment) : Except MomentFault Moment := do
  match written.time with
  | none => return .date (← written.day.check)
  | some (time, offset) =>
    let offset ← offset.mapM Moment.checkOffset
    let day ← written.day.check
    return .dateTime day (← time.check) offset

/-- A number after a character. -/
def numberAfter? (c : Char) (least most : Nat) : List Char → Option (Nat × List Char)
  | d :: rest => if d = c then Numeral.short? least most rest else none
  | [] => none

/-- Whether a character is a blank. -/
def isMomentBlank (c : Char) : Bool := c == ' ' || c == '\t'

/-- The text after what stands between a day and a time. -/
def afterDay? : List Char → Option (List Char)
  | c :: rest =>
    if c = 'T' ∨ c = 't' then some rest
    else if isMomentBlank c then some (rest.dropWhile isMomentBlank)
    else none
  | [] => none

/-- The millionths of a second of a fraction, whose point may stand alone, and the rest. -/
def fractionMicroseconds : List Char → Nat × List Char
  | '.' :: rest =>
    let (ds, rest) := Numeral.digits rest
    (Numeral.value ((ds ++ List.replicate 6 '0').take 6), rest)
  | rest => (0, rest)

/-- The minutes of an offset after its sign, up to the end of the text. -/
def offsetMinutes? (cs : List Char) : Option Nat := do
  let (hours, rest) ← Numeral.short? 1 2 cs
  if rest.isEmpty then return hours * 60
  let (minutes, rest) ← numberAfter? ':' 2 2 rest
  if rest.isEmpty then return hours * 60 + minutes else none

/-- The offset after a time, up to the end of the text; nothing if there is none. -/
def offsetAfterTime? (cs : List Char) : Option (Option Int) :=
  match cs.dropWhile isMomentBlank with
  | [] => if cs.isEmpty then some none else none
  | ['Z'] => some (some 0)
  | '+' :: rest => (offsetMinutes? rest).map fun n => some (n : Int)
  | '-' :: rest => (offsetMinutes? rest).map fun n => some (-(n : Int))
  | _ => none

/-- The moment that a text writes. -/
def writtenMoment? (cs : List Char) : Option WrittenMoment := do
  let (year, rest) ← Numeral.short? 4 4 cs
  let (month, rest) ← numberAfter? '-' 1 2 rest
  let (day, rest) ← numberAfter? '-' 1 2 rest
  let day : Date := ⟨year, month, day⟩
  if rest.isEmpty then return { day }
  let (hour, rest) ← Numeral.short? 1 2 (← afterDay? rest)
  let (minute, rest) ← numberAfter? ':' 2 2 rest
  let (second, rest) ← numberAfter? ':' 2 2 rest
  let (microsecond, rest) := fractionMicroseconds rest
  let offset ← offsetAfterTime? rest
  return { day, time := some ({ hour, minute, second, microsecond }, offset) }

/-- The moment that a text without a tag writes: a day alone has all its digits. -/
def implicitMoment? (cs : List Char) : Option WrittenMoment :=
  (writtenMoment? cs).filter fun written => written.time.isSome || cs.length == 10

end ThemeSheet.Yaml
