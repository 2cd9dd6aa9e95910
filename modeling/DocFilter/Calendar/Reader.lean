import DocFilter.Calendar.Moment
import DocFilter.Text.Blank
import DocFilter.Text.Digit

/-!
# Reading dates and times

Two notations are understood. An internet timestamp has fields of fixed width and an offset from
universal time, to which it is converted. A local time has no offset; its fields may be shorter,
may have blanks before them, and the time of day may be missing.

## Main definitions

* `Moment.readInternet?`: `YYYY-MM-DDTHH:MM:SS`, an optional fraction and an offset.
* `Moment.readLocal?`: a date, and a time of day behind `T` or blanks, or midnight.
* `Moment.ofText?`: the moment that a text denotes in either notation.
-/

namespace DocFilter

/-! ### Fields -/

/-- The text behind a given character. -/
def expect (c : Char) : List Char → Option (List Char)
  | [] => none
  | c' :: rest => if c' = c then some rest else none

/-- A number of exactly `width` digits. -/
def readFixed (width : Nat) (cs : List Char) : Option (Nat × List Char) :=
  let ds := (Digit.run (cs.take width)).1
  if ds.length = width then some (Digit.value ds, cs.drop width) else none

/-- A number of at least one digit and at most `width` of them, behind blanks. -/
def readField (width : Nat) (cs : List Char) : Option (Nat × List Char) :=
  let cs := skipBlank cs
  let ds := (Digit.run cs).1.take width
  if ds.isEmpty then none else some (Digit.value ds, cs.drop ds.length)

/-- A year behind blanks: up to four digits, or a sign and any number of them. -/
def readYear (cs : List Char) : Option (Int × List Char) :=
  match skipBlank cs with
  | '+' :: rest => signed rest fun n => n
  | '-' :: rest => signed rest fun n => -n
  | cs => (readField 4 cs).map fun (n, rest) => (n, rest)
where
  signed (cs : List Char) (f : Int → Int) : Option (Int × List Char) :=
    match Digit.run cs with
    | ([], _) => none
    | (ds, rest) => some (f (Digit.value ds), rest)

/-- The microseconds of an optional fraction. Digits after the sixth are dropped. -/
def readMicros : List Char → Option (Nat × List Char)
  | '.' :: cs =>
    match Digit.run cs with
    | ([], _) => none
    | (ds, rest) => some (Digit.value ((ds ++ List.replicate 6 Digit.zero).take 6), rest)
  | cs => some (0, cs)

/-! ### Internet timestamps -/

/-- Whether a character may stand between the date and the time of an internet timestamp. -/
def isTimeMark (c : Char) : Bool :=
  c == 'T' || c == 't' || c == ' '

/-- The sign of an offset: plus, hyphen or the minus sign U+2212. -/
def offsetSign? (c : Char) : Option Int :=
  if c = '+' then some 1 else if c = '-' ∨ c = '−' then some (-1) else none

/-- The offset at the end of an internet timestamp, in minutes. -/
def readOffset? : List Char → Option Int
  | ['Z'] => some 0
  | ['z'] => some 0
  | c :: cs => do
    let sign ← offsetSign? c
    let (hours, cs) ← readFixed 2 cs
    let cs ← expect ':' cs
    let (minutes, cs) ← readFixed 2 cs
    if hours ≤ 23 ∧ minutes ≤ 59 ∧ cs = [] then return sign * (60 * hours + minutes) else none
  | [] => none

namespace Moment

/-- The universal time of an internet timestamp. -/
def readInternet? (cs : List Char) : Option Moment := do
  let (year, cs) ← readFixed 4 cs
  let cs ← expect '-' cs
  let (month, cs) ← readFixed 2 cs
  let cs ← expect '-' cs
  let (day, cs) ← readFixed 2 cs
  let cs ← match cs with
    | c :: cs => if isTimeMark c then some cs else none
    | [] => none
  let (hour, cs) ← readFixed 2 cs
  let cs ← expect ':' cs
  let (minute, cs) ← readFixed 2 cs
  let cs ← expect ':' cs
  let (second, cs) ← readFixed 2 cs
  let (micros, cs) ← readMicros cs
  let offset ← readOffset? cs
  let date ← Date.ofFields? year month day
  let moment ← ofFields? date hour minute second micros
  return moment.atOffset offset

/-! ### Local times -/

/-- The date at the start of a local time. -/
def readDate? (cs : List Char) : Option (Date × List Char) := do
  let (year, cs) ← readYear cs
  let cs ← expect '-' cs
  let (month, cs) ← readField 2 cs
  let cs ← expect '-' cs
  let (day, cs) ← readField 2 cs
  return (← Date.ofFields? year month day, cs)

/-- The time of day at the end of a local time. -/
def readTime? (date : Date) (cs : List Char) : Option Moment := do
  let (hour, cs) ← readField 2 cs
  let cs ← expect ':' cs
  let (minute, cs) ← readField 2 cs
  let cs ← expect ':' cs
  let (second, cs) ← readField 2 cs
  let (micros, cs) ← readMicros cs
  if cs = [] then ofFields? date hour minute second micros else none

/-- A local time: a date alone is its midnight. -/
def readLocal? (cs : List Char) : Option Moment := do
  let (date, cs) ← readDate? cs
  match cs with
  | [] => return midnight date
  | 'T' :: cs => readTime? date cs
  | cs => readTime? date cs

/-- The moment that a text denotes. -/
def ofText? (s : String) : Option Moment :=
  readInternet? s.toList <|> readLocal? s.toList

end Moment

end DocFilter
