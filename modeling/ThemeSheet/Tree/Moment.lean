/-!
# Dates and times

Two of the file formats have dates and times among their scalars: a day of the calendar, a time of
the day, or both together, perhaps with an offset from the time of the zero meridian.

**Equality.** Two moments with offsets are the same if they are at the same time on the zero
meridian, whatever their offsets; a moment with an offset is never the same as one without, and a
day is never the same as a time on that day. `Moment.identity` is the representative of a moment
under that equality: an offset is taken off, which can only lead to a neighbouring day.

**Two written forms.** Alone, a moment is written with its parts in falling order, each with its
full number of digits. Among other values it is written as the call that makes it.

## Main definitions

* `Date`, `DayTime`, `Moment`;
* `Date.check`, `DayTime.check`, `Moment.checkOffset`, the limits of the calendar and the clock;
* `Moment.identity`; `Moment.text`, `Moment.call`, `Moment.kind`.

## Main results

* `Moment.identity_identity`: a representative represents itself.
-/

namespace ThemeSheet

/-- A day of the calendar. -/
structure Date where
  year : Nat
  month : Nat
  day : Nat
deriving DecidableEq, Repr, Inhabited

/-- A time of the day. -/
structure DayTime where
  hour : Nat
  minute : Nat
  second : Nat
  microsecond : Nat := 0
deriving DecidableEq, Repr, Inhabited

/-- A day, a time, or both, with an offset in minutes if one is given. -/
inductive Moment where
  | date (day : Date)
  | time (time : DayTime)
  | dateTime (day : Date) (time : DayTime) (offset : Option Int)
deriving DecidableEq, Repr, Inhabited

/-- Why there is no such moment. -/
inductive MomentFault where
  | year (n : Nat)
  | month
  | day
  | hour
  | minute
  | second
  /-- An offset, in minutes, is a day or more. -/
  | offset (minutes : Int)
deriving DecidableEq, Repr

/-! ### Calls -/

/-- A call of a function on arguments. -/
def callText (function : String) (arguments : List String) : String :=
  function ++ "(" ++ ", ".intercalate arguments ++ ")"

/-- A span of minutes as a call: in days, which may be negative, and seconds, which are not. -/
def spanCall (minutes : Int) : String :=
  let days := minutes / 1440
  let seconds := minutes % 1440 * 60
  let parts := (if days = 0 then [] else ["days=" ++ toString days]) ++
    (if seconds = 0 then [] else ["seconds=" ++ toString seconds])
  callText "datetime.timedelta" (if parts.isEmpty then ["0"] else parts)

/-- The wording of a fault. -/
def MomentFault.message : MomentFault → String
  | .year n => "year " ++ toString n ++ " is out of range"
  | .month => "month must be in 1..12"
  | .day => "day is out of range for month"
  | .hour => "hour must be in 0..23"
  | .minute => "minute must be in 0..59"
  | .second => "second must be in 0..59"
  | .offset minutes =>
    "offset must be a timedelta strictly between -timedelta(hours=24) and timedelta(hours=24), " ++
      "not " ++ spanCall minutes ++ "."

/-- A number with zeros in front of it, up to a number of digits. -/
def paddedNumber (width n : Nat) : String :=
  let ds := Nat.toDigits 10 n
  String.ofList (List.replicate (width - ds.length) '0' ++ ds)

/-! ### Days -/

namespace Date

/-- The number of days of a month. -/
def daysIn (year month : Nat) : Nat :=
  if month = 2 then
    if year % 4 = 0 ∧ (year % 100 ≠ 0 ∨ year % 400 = 0) then 29 else 28
  else if [4, 6, 9, 11].contains month then 30 else 31

/-- A day, if the calendar has it. -/
def check (d : Date) : Except MomentFault Date :=
  if d.year = 0 then .error (.year d.year)
  else if d.month = 0 ∨ 12 < d.month then .error .month
  else if d.day = 0 ∨ daysIn d.year d.month < d.day then .error .day
  else .ok d

/-- The day after a day. -/
def next (d : Date) : Date :=
  if d.day < daysIn d.year d.month then { d with day := d.day + 1 }
  else if d.month < 12 then ⟨d.year, d.month + 1, 1⟩
  else ⟨d.year + 1, 1, 1⟩

/-- The day before a day. -/
def previous (d : Date) : Date :=
  if 1 < d.day then { d with day := d.day - 1 }
  else if 1 < d.month then ⟨d.year, d.month - 1, daysIn d.year (d.month - 1)⟩
  else ⟨d.year - 1, 12, 31⟩

/-- The numbers of a day. -/
def numbers (d : Date) : List Nat := [d.year, d.month, d.day]

/-- A day in digits. -/
def text (d : Date) : String :=
  paddedNumber 4 d.year ++ "-" ++ paddedNumber 2 d.month ++ "-" ++ paddedNumber 2 d.day

end Date

/-! ### Times -/

namespace DayTime

/-- A time, if the clock has it. -/
def check (t : DayTime) : Except MomentFault DayTime :=
  if 23 < t.hour then .error .hour
  else if 59 < t.minute then .error .minute
  else if 59 < t.second then .error .second
  else .ok t

/-- The minutes since the beginning of the day. -/
def minutes (t : DayTime) : Nat := t.hour * 60 + t.minute

/-- The time so many minutes after the beginning of the day, with the seconds of another time. -/
def withMinutes (t : DayTime) (minutes : Nat) : DayTime :=
  { t with hour := minutes / 60, minute := minutes % 60 }

@[simp] theorem minutes_withMinutes (t : DayTime) (n : Nat) : (t.withMinutes n).minutes = n := by
  simp only [minutes, withMinutes]
  omega

@[simp] theorem withMinutes_withMinutes (t : DayTime) (m n : Nat) :
    (t.withMinutes m).withMinutes n = t.withMinutes n := rfl

/-- The numbers of a time, without the last ones if they are zero. -/
def numbers (t : DayTime) : List Nat :=
  [t.hour, t.minute] ++
    if t.microsecond ≠ 0 then [t.second, t.microsecond]
    else if t.second ≠ 0 then [t.second] else []

/-- A time in digits, with six more for a fraction of a second if there is one. -/
def text (t : DayTime) : String :=
  paddedNumber 2 t.hour ++ ":" ++ paddedNumber 2 t.minute ++ ":" ++ paddedNumber 2 t.second ++
    if t.microsecond = 0 then "" else "." ++ paddedNumber 6 t.microsecond

end DayTime

/-! ### Moments -/

namespace Moment

/-- An offset of less than a day. -/
def checkOffset (minutes : Int) : Except MomentFault Int :=
  if minutes.natAbs < 1440 then .ok minutes else .error (.offset minutes)

/-- The representative of a moment: one with an offset stands for its time on the zero meridian. -/
def identity : Moment → Moment
  | .dateTime d t (some offset) =>
    let minutes := (t.minutes : Int) - offset
    let day := if minutes < 0 then d.previous else if 1440 ≤ minutes then d.next else d
    .dateTime day (t.withMinutes (minutes % 1440).toNat) (some 0)
  | m => m

/-- **A representative represents itself.** -/
theorem identity_identity (m : Moment) : m.identity.identity = m.identity := by
  match m with
  | .date _ => rfl
  | .time _ => rfl
  | .dateTime _ _ none => rfl
  | .dateTime d t (some offset) =>
    simp only [identity, DayTime.minutes_withMinutes, DayTime.withMinutes_withMinutes]
    have low : ¬(((((t.minutes : Int) - offset) % 1440).toNat : Int) - 0 < 0) := by omega
    have high : ¬(1440 ≤ ((((t.minutes : Int) - offset) % 1440).toNat : Int) - 0) := by omega
    have same : (((((t.minutes : Int) - offset) % 1440).toNat : Int) - 0) % 1440 =
        ((t.minutes : Int) - offset) % 1440 := by omega
    rw [if_neg low, if_neg high, same]

/-- The name of the kind of a moment. -/
def kind : Moment → String
  | .date _ => "date"
  | .time _ => "time"
  | .dateTime _ _ _ => "datetime"

/-- An offset in digits, with its sign. -/
def offsetText (minutes : Int) : String :=
  let n := minutes.natAbs
  (if minutes < 0 then "-" else "+") ++ paddedNumber 2 (n / 60) ++ ":" ++ paddedNumber 2 (n % 60)

/-- A moment that stands alone. -/
def text : Moment → String
  | .date d => d.text
  | .time t => t.text
  | .dateTime d t none => d.text ++ " " ++ t.text
  | .dateTime d t (some offset) => d.text ++ " " ++ t.text ++ offsetText offset

/-- An offset as a call. -/
def offsetCall (minutes : Int) : String :=
  if minutes = 0 then "datetime.timezone.utc" else callText "datetime.timezone" [spanCall minutes]

/-- A moment as a call. -/
def call : Moment → String
  | .date d => callText "datetime.date" (d.numbers.map toString)
  | .time t => callText "datetime.time" (t.numbers.map toString)
  | .dateTime d t none => callText "datetime.datetime" ((d.numbers ++ t.numbers).map toString)
  | .dateTime d t (some offset) =>
    callText "datetime.datetime"
      ((d.numbers ++ t.numbers).map toString ++ ["tzinfo=" ++ offsetCall offset])

end Moment

end ThemeSheet
