import DocFilter.Calendar.Date

/-!
# Moments

A date with a time of day, down to the microsecond. A second of 60 is a leap second and may stand
in any minute.

## Main definitions

* `Moment.atOffset`: the moment in universal time of a local time with an offset.
* `Moment.text`: the moment as `YYYY-MM-DDTHH:MM:SS.ffffff`.
-/

namespace DocFilter

/-- A date and a time of day. -/
structure Moment where
  date : Date
  hour : Nat
  minute : Nat
  second : Nat
  micros : Nat
deriving DecidableEq, Repr

namespace Moment

/-- The start of a day. -/
def midnight (date : Date) : Moment :=
  ⟨date, 0, 0, 0, 0⟩

/-- The moment with the given fields, if the clock has that time of day. -/
def ofFields? (date : Date) (hour minute second micros : Nat) : Option Moment :=
  if hour ≤ 23 ∧ minute ≤ 59 ∧ second ≤ 60 then some ⟨date, hour, minute, second, micros⟩ else none

/-- The universal time of a local time that is `offset` minutes ahead of it. An offset of less than
a day moves the date by one day at most, and it never touches the seconds. -/
def atOffset (m : Moment) (offset : Int) : Moment :=
  let minutes : Int := 60 * m.hour + m.minute - offset
  let (date, minutes) :=
    if minutes < 0 then (m.date.previous, minutes + 1440)
    else if 1440 ≤ minutes then (m.date.next, minutes - 1440)
    else (m.date, minutes)
  { m with date, hour := (minutes / 60).toNat, minute := (minutes % 60).toNat }

/-- The moment as `YYYY-MM-DDTHH:MM:SS.ffffff`. -/
def text (m : Moment) : String :=
  m.date.text ++ "T" ++ zeroPadded 2 m.hour ++ ":" ++ zeroPadded 2 m.minute ++ ":" ++
    zeroPadded 2 m.second ++ "." ++ zeroPadded 6 m.micros

end Moment

end DocFilter
