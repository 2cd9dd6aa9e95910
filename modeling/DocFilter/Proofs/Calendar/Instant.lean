import DocFilter.Proofs.Calendar.Normal
import Mathlib.Algebra.Order.Floor.Semifield
import Mathlib.Data.Rat.Floor

/-!
# Instants of internet timestamps

An internet timestamp gives local fields and an offset, and with them an instant: the number of
seconds of the local fields, less the offset. Its normal form has no offset. It gives the same
minute of the calendar, found by counting days, and the same second, and cuts the fraction after six
digits. So two internet timestamps have the same normal form exactly if their instants agree down to
the microsecond, whatever their offsets are.

## Main definitions

* `Stamp`: the internet timestamps, without leap seconds.
* `Stamp.instant`: the instant that a timestamp denotes, in seconds.
* `Moment.microNumber`: the number of the microsecond that a moment is in.

## Main results

* `Stamp.ofText?_text`: what an internet timestamp is read as.
* `Moment.eq_of_microNumber_eq`: a moment is known by the number of its microsecond.
* `Operand.toTimestamp_stamp`: the normal form of an internet timestamp denotes its instant.
-/

namespace DocFilter

open Digit

/-! ### Internet timestamps -/

/-- The offset of an internet timestamp as it is written. -/
inductive Offset where
  /-- No offset, as `Z` or `z`. -/
  | zero (lower : Bool)
  /-- Ahead of universal time by hours and minutes. -/
  | ahead (hours minutes : Nat)
  /-- Behind universal time, with a hyphen or a minus sign. -/
  | behind (hyphen : Bool) (hours minutes : Nat)

namespace Offset

/-- The hours and minutes of an offset are those of a clock. -/
def Valid : Offset → Prop
  | zero _ => True
  | ahead hours minutes => hours ≤ 23 ∧ minutes ≤ 59
  | behind _ hours minutes => hours ≤ 23 ∧ minutes ≤ 59

/-- How many minutes local time is ahead of universal time. -/
def minutes : Offset → Int
  | zero _ => 0
  | ahead hours minutes => 60 * hours + minutes
  | behind _ hours minutes => -(60 * hours + minutes)

/-- Hours and minutes of two digits each, with a colon between them. -/
def digits (hours minutes : Nat) : List Char :=
  (zeroPadded 2 hours).toList ++ ':' :: (zeroPadded 2 minutes).toList

/-- The offset as it is written. -/
def text : Offset → List Char
  | zero lower => [if lower then 'z' else 'Z']
  | ahead hours minutes => '+' :: digits hours minutes
  | behind hyphen hours minutes => (if hyphen then '-' else '−') :: digits hours minutes

end Offset

/-- An internet timestamp: a day of the years 0 to 9999, a time of day with any digits of a second,
and an offset. -/
structure Stamp where
  date : Date
  /-- The character between the date and the time of day. -/
  mark : Char
  hour : Nat
  minute : Nat
  second : Nat
  /-- The digits behind the point; without any there is no point. -/
  fraction : List Digit
  offset : Offset
  date_valid : date.Valid
  year_nonneg : 0 ≤ date.year
  year_le : date.year ≤ 9999
  mark_mem : mark ∈ ['T', 't', ' ']
  hour_le : hour ≤ 23
  minute_le : minute ≤ 59
  second_lt : second < 60
  offset_valid : offset.Valid

namespace Stamp

/-- The digits of a second with the point before them. -/
def fractionText (fraction : List Digit) : List Char :=
  if fraction.isEmpty then [] else '.' :: fraction.map toChar

/-- The timestamp as it is written. -/
def text (s : Stamp) : String :=
  String.ofList (dateText (zeroPadded 4 s.date.year.natAbs) s.date.month s.date.day
    (s.mark :: clockText s.hour s.minute s.second (fractionText s.fraction ++ s.offset.text)))

/-- The number of the minute that the local fields give. -/
def localMinute (s : Stamp) : Int :=
  1440 * s.date.dayNumber + (60 * s.hour + s.minute)

/-- The part of a second that the digits behind the point denote. -/
def part (s : Stamp) : ℚ :=
  value s.fraction / 10 ^ s.fraction.length

/-- The instant of a timestamp, in seconds. -/
def instant (s : Stamp) : ℚ :=
  ((60 * (s.localMinute - s.offset.minutes) + s.second : Int) : ℚ) + s.part

end Stamp

/-! ### Reading internet timestamps -/

namespace Offset

variable {offset : Offset}

theorem readOffset?_signed (c : Char) (sign : Int) (hc : offsetSign? c = some sign)
    (hZ : c ≠ 'Z') (hz : c ≠ 'z') {hours minutes : Nat} (hhours : hours ≤ 23)
    (hminutes : minutes ≤ 59) :
    readOffset? (c :: digits hours minutes) = some (sign * (60 * hours + minutes)) := by
  have hhours' := readFixed_zeroPadded (by decide)
    (Nat.lt_of_le_of_lt hhours (show 23 < 10 ^ 2 by decide)) (':' :: (zeroPadded 2 minutes).toList)
  have hminutes' := readFixed_zeroPadded (by decide)
    (Nat.lt_of_le_of_lt hminutes (show 59 < 10 ^ 2 by decide)) []
  rw [List.append_nil] at hminutes'
  unfold readOffset?
  split
  · next heq => exact absurd (List.cons.inj heq).1 hZ
  · next heq => exact absurd (List.cons.inj heq).1 hz
  · next heq =>
    obtain ⟨rfl, rfl⟩ := List.cons.inj heq
    refine (bind_of_eq_some hc).trans ?_
    refine (bind_of_eq_some hhours').trans ?_
    refine (bind_of_eq_some (expect_cons ':' _)).trans ?_
    refine (bind_of_eq_some hminutes').trans ?_
    exact if_pos ⟨hhours, hminutes, rfl⟩
  · next heq => cases heq

/-- An offset that is written is read as its minutes. -/
theorem readOffset?_text (h : offset.Valid) : readOffset? offset.text = some offset.minutes := by
  cases offset with
  | zero lower => cases lower <;> rfl
  | ahead hours minutes =>
    have hread := readOffset?_signed '+' 1 (by decide) (by decide) (by decide) h.1 h.2
    rw [text, hread, Offset.minutes, Int.one_mul]
  | behind hyphen hours minutes =>
    have hread := readOffset?_signed (if hyphen then '-' else '−') (-1)
      (by cases hyphen <;> decide) (by cases hyphen <;> decide) (by cases hyphen <;> decide) h.1 h.2
    rw [text, hread, Offset.minutes, Int.neg_mul, Int.one_mul]

theorem head?_text (offset : Offset) :
    ∀ c ∈ offset.text.head?, ofChar? c = none ∧ c ≠ '.' := by
  cases offset with
  | zero lower => cases lower <;> rintro c ⟨⟩ <;> decide
  | ahead hours minutes => rintro c ⟨⟩; decide
  | behind hyphen hours minutes => cases hyphen <;> rintro c ⟨⟩ <;> decide

theorem bounds_minutes (h : offset.Valid) : -1440 < offset.minutes ∧ offset.minutes < 1440 :=
  Moment.bounds_of_readOffset? (readOffset?_text h)

end Offset

namespace Stamp

variable (s : Stamp)

/-- The fraction is cut to microseconds, and is zero if it is missing. -/
theorem readMicros_fractionText {fraction : List Digit} {rest : List Char}
    (hrest : ∀ c ∈ rest.head?, ofChar? c = none ∧ c ≠ '.') :
    readMicros (fractionText fraction ++ rest) =
      some (value fraction * 10 ^ 6 / 10 ^ fraction.length, rest) := by
  unfold fractionText
  split_ifs with hempty
  · obtain rfl := List.isEmpty_iff.1 hempty
    rw [List.nil_append]
    unfold readMicros
    split
    · exact absurd rfl (hrest '.' rfl).2
    · rfl
  · have hne : fraction ≠ [] := fun h => hempty (List.isEmpty_iff.2 h)
    exact readMicros_map_toChar hne fun c hc => (hrest c hc).1

/-- The local time of a timestamp, to the microsecond. -/
def localMoment : Moment :=
  ⟨s.date, s.hour, s.minute, s.second, value s.fraction * 10 ^ 6 / 10 ^ s.fraction.length⟩

/-- The time that an internet timestamp is read as: its local time less its offset. -/
def moment : Moment :=
  s.localMoment.atOffset s.offset.minutes

theorem valid_localMoment : s.localMoment.Valid where
  date := s.date_valid
  minYear_le := Int.le_trans (by decide) s.year_nonneg
  le_maxYear := Int.le_trans s.year_le (by decide)
  hour_le := s.hour_le
  minute_le := s.minute_le
  second_le := Nat.le_of_lt s.second_lt
  micros_lt := by
    have hpos : 0 < 10 ^ s.fraction.length := Nat.pow_pos (by decide)
    rw [localMoment, Nat.div_lt_iff_lt_mul hpos, Nat.mul_comm]
    exact Nat.mul_lt_mul_of_pos_left (value_lt s.fraction) (by decide)

/-- **Every internet timestamp is read**, and as the time that it denotes. -/
theorem ofText?_text : Moment.ofText? s.text = some s.moment := by
  have hvalid := s.valid_localMoment
  have hyear : (s.date.year.natAbs : Int) = s.date.year := Int.natAbs_of_nonneg s.year_nonneg
  have hlt : s.date.year.natAbs < 10 ^ 4 := by
    have hle := s.year_le
    omega
  have hmark : isTimeMark s.mark := by
    have hmem := s.mark_mem
    simpa [isTimeMark, or_assoc] using hmem
  have hdate : Date.ofFields? s.date.year s.date.month s.date.day = some s.date :=
    Date.ofFields?_eq_some_iff.2 ⟨rfl, s.date_valid, hvalid.minYear_le, hvalid.le_maxYear⟩
  have hmoment : Moment.ofFields? s.date s.hour s.minute s.second s.localMoment.micros =
      some s.localMoment :=
    Moment.ofFields?_eq_some_iff.2 ⟨rfl, s.hour_le, s.minute_le, hvalid.second_le⟩
  have hread : Moment.readInternet? s.text.toList = some s.moment := by
    have hhour : s.hour < 10 ^ 2 := hvalid.hour_lt
    have hminute : s.minute < 10 ^ 2 := hvalid.minute_lt
    have hsecond : s.second < 10 ^ 2 := hvalid.second_lt
    rw [text, String.toList_ofList, Moment.readInternet?_fields hlt s.date_valid.month_lt
      s.date_valid.day_lt hhour hminute hsecond hmark]
    refine (bind_of_eq_some (readMicros_fractionText s.offset.head?_text)).trans ?_
    refine (bind_of_eq_some (Offset.readOffset?_text s.offset_valid)).trans ?_
    rw [hyear]
    refine (bind_of_eq_some hdate).trans ?_
    exact bind_of_eq_some hmoment
  rw [Moment.ofText?, hread]
  rfl

theorem valid_moment : s.moment.Valid := by
  obtain ⟨hlow, hhigh⟩ := Offset.bounds_minutes s.offset_valid
  have hnonneg := s.year_nonneg
  have hle := s.year_le
  refine Moment.valid_atOffset s.valid_localMoment hlow hhigh ?_ ?_
  · exact Int.lt_of_lt_of_le (by decide) hnonneg
  · exact Int.lt_of_le_of_lt hle (by decide)

theorem minuteNumber_moment : s.moment.minuteNumber = s.localMinute - s.offset.minutes := by
  obtain ⟨hlow, hhigh⟩ := Offset.bounds_minutes s.offset_valid
  exact Moment.minuteNumber_atOffset s.date_valid s.hour_le s.minute_le hlow hhigh

theorem second_moment : s.moment.second = s.second := by
  obtain ⟨hlow, hhigh⟩ := Offset.bounds_minutes s.offset_valid
  obtain ⟨date, hour, minute, days, hmoment, -⟩ :=
    Moment.atOffset_cases (m := s.localMoment) s.hour_le s.minute_le hlow hhigh
  rw [moment, hmoment]
  rfl

/-- The microseconds are the fraction cut after six digits. -/
theorem micros_moment : s.moment.micros = ⌊10 ^ 6 * s.part⌋₊ := by
  obtain ⟨hlow, hhigh⟩ := Offset.bounds_minutes s.offset_valid
  obtain ⟨date, hour, minute, days, hmoment, -⟩ :=
    Moment.atOffset_cases (m := s.localMoment) s.hour_le s.minute_le hlow hhigh
  have hpart : 10 ^ 6 * s.part =
      ((value s.fraction * 10 ^ 6 : Nat) : ℚ) / ((10 ^ s.fraction.length : Nat) : ℚ) := by
    rw [part]
    push_cast
    ring
  rw [moment, hmoment, hpart, Nat.floor_div_eq_div]
  rfl

end Stamp

/-! ### Moments by their microseconds -/

namespace Moment

/-- The number of the microsecond that a moment is in. -/
def microNumber (m : Moment) : Int :=
  10 ^ 6 * (60 * m.minuteNumber + m.second) + m.micros

/-- **A moment is known by the number of its microsecond**, unless it is in a leap second. -/
theorem eq_of_microNumber_eq {m m' : Moment} (h : m.Valid) (h' : m'.Valid) (hsecond : m.second < 60)
    (hsecond' : m'.second < 60) (heq : m.microNumber = m'.microNumber) : m = m' := by
  obtain ⟨date, hour, minute, second, micros⟩ := m
  obtain ⟨date', hour', minute', second', micros'⟩ := m'
  obtain ⟨hdate, -, -, hhour, hminute, -, hmicros⟩ := h
  obtain ⟨hdate', -, -, hhour', hminute', -, hmicros'⟩ := h'
  dsimp only [microNumber, minuteNumber] at *
  have hday : date.dayNumber = date'.dayNumber := by omega
  obtain rfl := Date.eq_of_dayNumber_eq hdate hdate' hday
  congr 1 <;> omega

end Moment

/-- The microsecond of an internet timestamp is that of its instant. -/
theorem Stamp.microNumber_moment (s : Stamp) : s.moment.microNumber = ⌊10 ^ 6 * s.instant⌋ := by
  have hpart : 0 ≤ 10 ^ 6 * s.part := by
    rw [part]
    positivity
  have hmicros : (s.moment.micros : Int) = ⌊10 ^ 6 * s.part⌋ := by
    rw [s.micros_moment]
    exact Int.natCast_floor_eq_floor hpart
  have hinstant : 10 ^ 6 * s.instant =
      ((10 ^ 6 * (60 * (s.localMinute - s.offset.minutes) + s.second) : Int) : ℚ) +
        10 ^ 6 * s.part := by
    rw [instant]
    push_cast
    ring
  rw [hinstant, Int.floor_intCast_add, Moment.microNumber, s.minuteNumber_moment, s.second_moment,
    hmicros]

/-! ### Normal forms -/

/-- **The normal form of an internet timestamp denotes its instant.** It is the text of a moment, in
the minute of the local fields less the offset, in the same second, and with the fraction cut after
six digits. Two internet timestamps have the same normal form exactly if their instants agree down
to the microsecond. -/
theorem Operand.toTimestamp_stamp (key : String) (sense : Sense) :
    (∀ s : Stamp, ∃ m : Moment,
      toTimestamp key ⟨.string s.text, sense⟩ = .ok ⟨.string m.text, .timestamp⟩ ∧
      Moment.ofText? m.text = some m ∧ m.Valid ∧
      m.minuteNumber = s.localMinute - s.offset.minutes ∧ m.second = s.second ∧
      m.micros = ⌊10 ^ 6 * s.part⌋₊) ∧
    ∀ s s' : Stamp,
      toTimestamp key ⟨.string s.text, sense⟩ = toTimestamp key ⟨.string s'.text, sense⟩ ↔
        ⌊10 ^ 6 * s.instant⌋ = ⌊10 ^ 6 * s'.instant⌋ := by
  have hnormal (s : Stamp) :
      toTimestamp key ⟨.string s.text, sense⟩ = .ok ⟨.string s.moment.text, .timestamp⟩ :=
    toTimestamp_of_ofText? s.ofText?_text
  have hback (s : Stamp) : Moment.ofText? s.moment.text = some s.moment :=
    Moment.ofText?_text s.valid_moment
  refine ⟨fun s => ⟨s.moment, hnormal s, hback s, s.valid_moment, s.minuteNumber_moment,
    s.second_moment, s.micros_moment⟩, fun s s' => ?_⟩
  have hlt (s : Stamp) : s.moment.second < 60 := s.second_moment ▸ s.second_lt
  rw [hnormal, hnormal, ← s.microNumber_moment, ← s'.microNumber_moment]
  constructor
  · intro h
    -- texts of moments can be read back, so that equal texts come from one moment
    have htext : s.moment.text = s'.moment.text := by simpa using h
    have hmoment : some s.moment = some s'.moment := by rw [← hback, ← hback, htext]
    rw [Option.some.inj hmoment]
  · intro h
    rw [Moment.eq_of_microNumber_eq s.valid_moment s'.valid_moment (hlt s) (hlt s') h]

/-- The evening of a leap day behind universal time and the night after it ahead of it, in one
instant. -/
theorem Operand.toTimestamp_stamp_offsets :
    ∃ s s' : Stamp, s.text = "2024-02-29T23:30:00.5-01:00" ∧
      s'.text = "2024-03-01 03:00:00.50+02:30" ∧ s.instant = s'.instant ∧
      ∃ m : Moment, m.minuteNumber = s.localMinute + 60 ∧ m.minuteNumber = s'.localMinute - 150 ∧
        toTimestamp "$eq" ⟨.string s.text, .plain⟩ = .ok ⟨.string m.text, .timestamp⟩ ∧
        toTimestamp "$eq" ⟨.string s'.text, .plain⟩ = .ok ⟨.string m.text, .timestamp⟩ := by
  obtain ⟨s, hs⟩ : ∃ s : Stamp, s = ⟨⟨2024, 2, 29⟩, 'T', 23, 30, 0, [5], .behind true 1 0,
    ⟨by decide, by decide, by decide, by decide⟩, by decide, by decide, by decide, by decide,
    by decide, by decide, ⟨by decide, by decide⟩⟩ := ⟨_, rfl⟩
  obtain ⟨s', hs'⟩ : ∃ s : Stamp, s = ⟨⟨2024, 3, 1⟩, ' ', 3, 0, 0, [5, 0], .ahead 2 30,
    ⟨by decide, by decide, by decide, by decide⟩, by decide, by decide, by decide, by decide,
    by decide, by decide, ⟨by decide, by decide⟩⟩ := ⟨_, rfl⟩
  have hinstant : s.instant = s'.instant := by
    subst hs hs'
    decide +kernel
  have hminute : s'.localMinute - 150 = s.localMinute + 60 := by
    subst hs hs'
    decide +kernel
  have hoffset : s.offset.minutes = -60 := by
    subst hs
    rfl
  obtain ⟨hdenotes, hsame⟩ := toTimestamp_stamp "$eq" .plain
  obtain ⟨m, hm, -, -, hnumber, -⟩ := hdenotes s
  have hequal := (hsame s s').2 (by rw [hinstant])
  have hlocal : m.minuteNumber = s.localMinute + 60 := by
    rw [hnumber, hoffset]
    omega
  refine ⟨s, s', ?_, ?_, hinstant, m, hlocal, hlocal.trans hminute.symm, hm, hequal ▸ hm⟩
  · subst hs
    decide +kernel
  · subst hs'
    decide +kernel

end DocFilter
