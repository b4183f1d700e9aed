import ThemeSheet.Number.Numeral
import ThemeSheet.Toml.Text
import ThemeSheet.Tree.Moment

/-!
# Dates and times in a TOML text

A date, a time, or both with an offset. Every number but a fraction of a second has a fixed number
of digits, and of a fraction six digits count. Where a date has no readable time after it, the date
stands alone.

## Main definitions

* `moment?`.
-/

namespace ThemeSheet.Toml

/-- A number of exactly so many digits, in a range. -/
def fixedNumber? (width low high : Nat) (cs : List Char) : Option (Taken Nat) :=
  (Numeral.short? width width cs).filter fun taken => decide (low ≤ taken.1 ∧ taken.1 ≤ high)

/-- The rest of a text after a character. -/
def after? (c : Char) : List Char → Option (List Char)
  | d :: rest => if d = c then some rest else none
  | [] => none

/-- A date, in the calendar or not. -/
def date? (cs : List Char) : Option (Taken Date) := do
  let (year, rest) ← fixedNumber? 4 0 9999 cs
  let (month, rest) ← fixedNumber? 2 1 12 (← after? '-' rest)
  let (day, rest) ← fixedNumber? 2 1 31 (← after? '-' rest)
  return (⟨year, month, day⟩, rest)

/-- The millionths of a second that a fraction stands for, if one comes next. -/
def microseconds (cs : List Char) : Taken Nat :=
  match Numeral.fraction cs with
  | ([], _) => (0, cs)
  | (ds, rest) => (Numeral.value ((ds ++ List.replicate 6 '0').take 6), rest)

/-- A time of the day. -/
def time? (cs : List Char) : Option (Taken DayTime) := do
  let (hour, rest) ← fixedNumber? 2 0 23 cs
  let (minute, rest) ← fixedNumber? 2 0 59 (← after? ':' rest)
  let (second, rest) ← fixedNumber? 2 0 59 (← after? ':' rest)
  let (microsecond, rest) := microseconds rest
  return ({ hour, minute, second, microsecond }, rest)

/-- The minutes of an offset after its sign. -/
def offset? (negative : Bool) (cs : List Char) : Option (Taken Int) := do
  let (hour, rest) ← fixedNumber? 2 0 23 cs
  let (minute, rest) ← fixedNumber? 2 0 59 (← after? ':' rest)
  return (Binary64.signed negative (hour * 60 + minute), rest)

/-- The offset that comes next, or nothing. -/
def offset (cs : List Char) : Taken (Option Int) :=
  let found := match cs with
    | 'Z' :: rest => some ((0 : Int), rest)
    | 'z' :: rest => some ((0 : Int), rest)
    | '+' :: rest => offset? false rest
    | '-' :: rest => offset? true rest
    | _ => none
  match found with
  | some (minutes, rest) => (some minutes, rest)
  | none => (none, cs)

/-- The time that comes next after a date, if one does. -/
def timeAfterDate? (cs : List Char) : Option (Taken DayTime) :=
  match cs with
  | c :: rest => if c = 'T' ∨ c = 't' ∨ c = ' ' then time? rest else none
  | [] => none

/-- A day with the time and the offset after it. -/
def onDay (day : Date) (cs : List Char) : Taken Moment :=
  match timeAfterDate? cs with
  | none => (.date day, cs)
  | some (time, rest) => (.dateTime day time (offset rest).1, (offset rest).2)

/-- A date or a time, if one comes next. -/
def moment? (cs : List Char) : Option (Except Fault (Taken Moment)) :=
  match date? cs with
  | some (day, rest) =>
    match day.check with
    | .ok day => some (.ok (onDay day rest))
    | .error _ => some (.error .badMoment)
  | none => (time? cs).map fun t => .ok (.time t.1, t.2)

end ThemeSheet.Toml
