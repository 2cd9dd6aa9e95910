import DocFilter.Proofs.Calendar.Days
import DocFilter.Proofs.Calendar.Fields

/-!
# Moments and offsets

The minutes of the calendar are numbered like its days. Taking an offset off a local time takes as
many minutes off its number: the day changes by one at most, and the seconds stay as they are. The
moments that are read from texts have fields that the calendar and the clock know.

## Main definitions

* `Moment.Valid`: the calendar has the day, and the clock has the time of day.
* `Moment.minuteNumber`: the number of the minute that a moment is in.

## Main results

* `Moment.minuteNumber_atOffset`: an offset is taken off the number of the minute.
* `Moment.valid_of_ofText?`: every moment that is read is valid.
-/

namespace DocFilter

namespace Moment

/-- The calendar has the day and its year, and the clock has the time of day. -/
structure Valid (m : Moment) : Prop where
  date : m.date.Valid
  minYear_le : Date.minYear ≤ m.date.year
  le_maxYear : m.date.year ≤ Date.maxYear
  hour_le : m.hour ≤ 23
  minute_le : m.minute ≤ 59
  second_le : m.second ≤ 60
  micros_lt : m.micros < 10 ^ 6

theorem ofFields?_eq_some_iff {date : Date} {hour minute second micros : Nat} {m : Moment} :
    ofFields? date hour minute second micros = some m ↔
      m = ⟨date, hour, minute, second, micros⟩ ∧ hour ≤ 23 ∧ minute ≤ 59 ∧ second ≤ 60 := by
  unfold ofFields?
  split_ifs with hclock
  · rw [Option.some.injEq, eq_comm]
    exact (and_iff_left hclock).symm
  · exact ⟨nofun, fun h => absurd h.2 hclock⟩

/-! ### Offsets -/

/-- The number of the minute that a moment is in. -/
def minuteNumber (m : Moment) : Int :=
  1440 * m.date.dayNumber + (60 * m.hour + m.minute)

variable {m : Moment} {offset : Int}

/-- What an offset of less than a day does. The day stays, or is the one before or after, and the
time of day is what remains of the minutes. -/
theorem atOffset_cases (hhour : m.hour ≤ 23) (hminute : m.minute ≤ 59) (hlow : -1440 < offset)
    (hhigh : offset < 1440) :
    ∃ (date : Date) (hour minute : Nat) (days : Int),
      m.atOffset offset = ⟨date, hour, minute, m.second, m.micros⟩ ∧ hour ≤ 23 ∧ minute ≤ 59 ∧
      1440 * days + (60 * hour + minute) = 60 * m.hour + m.minute - offset ∧
      (date = m.date.previous ∧ days = -1 ∨ date = m.date ∧ days = 0 ∨
        date = m.date.next ∧ days = 1) := by
  unfold atOffset
  dsimp only
  split_ifs with hbefore hafter
  · exact ⟨_, _, _, -1, rfl, by omega, by omega, by omega, .inl ⟨rfl, rfl⟩⟩
  · exact ⟨_, _, _, 1, rfl, by omega, by omega, by omega, .inr (.inr ⟨rfl, rfl⟩)⟩
  · exact ⟨_, _, _, 0, rfl, by omega, by omega, by omega, .inr (.inl ⟨rfl, rfl⟩)⟩

/-- **An offset is taken off the number of the minute**, and gives a time of day again. -/
theorem minuteNumber_atOffset (hdate : m.date.Valid) (hhour : m.hour ≤ 23)
    (hminute : m.minute ≤ 59) (hlow : -1440 < offset) (hhigh : offset < 1440) :
    (m.atOffset offset).minuteNumber = m.minuteNumber - offset := by
  obtain ⟨date, hour, minute, days, hmoment, -, -, hminutes, hdays⟩ :=
    atOffset_cases hhour hminute hlow hhigh
  have hnumber : date.dayNumber = m.date.dayNumber + days := by
    rcases hdays with ⟨rfl, rfl⟩ | ⟨rfl, rfl⟩ | ⟨rfl, rfl⟩
    · exact Date.dayNumber_previous hdate
    · exact (Int.add_zero _).symm
    · exact Date.dayNumber_next hdate
  rw [hmoment, minuteNumber, minuteNumber, hnumber]
  dsimp only
  omega

theorem valid_atOffset (h : m.Valid) (hlow : -1440 < offset) (hhigh : offset < 1440)
    (hmin : Date.minYear < m.date.year) (hmax : m.date.year < Date.maxYear) :
    (m.atOffset offset).Valid := by
  obtain ⟨date, hour, minute, days, hmoment, hhour, hminute, -, hdays⟩ :=
    atOffset_cases h.hour_le h.minute_le hlow hhigh
  have hprevious := m.date.year_previous
  have hnext := m.date.year_next
  have hdate : date.Valid ∧ m.date.year - 1 ≤ date.year ∧ date.year ≤ m.date.year + 1 := by
    rcases hdays with ⟨rfl, -⟩ | ⟨rfl, -⟩ | ⟨rfl, -⟩
    · exact ⟨Date.valid_previous h.date, by omega, by omega⟩
    · exact ⟨h.date, by omega, by omega⟩
    · exact ⟨Date.valid_next h.date, by omega, by omega⟩
  rw [hmoment]
  exact ⟨hdate.1, by dsimp only; omega, by dsimp only; omega, hhour, hminute, h.second_le,
    h.micros_lt⟩

/-! ### Moments that are read -/

theorem offsetSign?_eq_some {c : Char} {sign : Int} (h : offsetSign? c = some sign) :
    sign = 1 ∨ sign = -1 := by
  unfold offsetSign? at h
  split_ifs at h
  · exact .inl (Option.some.inj h).symm
  · exact .inr (Option.some.inj h).symm

/-- Offsets are shorter than a day. -/
theorem bounds_of_readOffset? {cs : List Char} (h : readOffset? cs = some offset) :
    -1440 < offset ∧ offset < 1440 := by
  unfold readOffset? at h
  split at h
  · obtain rfl := Option.some.inj h
    decide
  · obtain rfl := Option.some.inj h
    decide
  · obtain ⟨sign, hsign, h⟩ := Option.bind_eq_some_iff.1 h
    obtain ⟨⟨hours, cs⟩, -, h⟩ := Option.bind_eq_some_iff.1 h
    obtain ⟨cs, -, h⟩ := Option.bind_eq_some_iff.1 h
    obtain ⟨⟨minutes, cs⟩, -, h⟩ := Option.bind_eq_some_iff.1 h
    dsimp only at h
    split_ifs at h with hclock
    obtain rfl := Option.some.inj h
    rcases offsetSign?_eq_some hsign with rfl | rfl <;> omega
  · cases h

theorem valid_of_fields {year : Int} {month day hour minute second micros : Nat} {date : Date}
    (hdate : Date.ofFields? year month day = some date)
    (hmoment : ofFields? date hour minute second micros = some m) (hmicros : micros < 10 ^ 6) :
    m.Valid ∧ m.date.year = year := by
  obtain ⟨rfl, hvalid, hmin, hmax⟩ := Date.ofFields?_eq_some_iff.1 hdate
  obtain ⟨rfl, hhour, hminute, hsecond⟩ := ofFields?_eq_some_iff.1 hmoment
  exact ⟨⟨hvalid, hmin, hmax, hhour, hminute, hsecond, hmicros⟩, rfl⟩

/-- What is read behind the date of an internet timestamp, up to the offset. -/
theorem exists_of_readInternet? {cs : List Char} (h : readInternet? cs = some m) :
    ∃ (year month day : Nat) (date : Date) (hour minute second micros : Nat) (moment : Moment)
      (offset : Int), year < 10 ^ 4 ∧ Date.ofFields? year month day = some date ∧
      ofFields? date hour minute second micros = some moment ∧ micros < 10 ^ 6 ∧
      (-1440 < offset ∧ offset < 1440) ∧ m = moment.atOffset offset := by
  obtain ⟨⟨year, cs⟩, hyear, h⟩ := Option.bind_eq_some_iff.1 h
  obtain ⟨cs, -, h⟩ := Option.bind_eq_some_iff.1 h
  obtain ⟨⟨month, cs⟩, -, h⟩ := Option.bind_eq_some_iff.1 h
  obtain ⟨cs, -, h⟩ := Option.bind_eq_some_iff.1 h
  obtain ⟨⟨day, cs⟩, -, h⟩ := Option.bind_eq_some_iff.1 h
  dsimp only at h
  split at h
  · split_ifs at h
    · obtain ⟨cs, -, h⟩ := Option.bind_eq_some_iff.1 h
      obtain ⟨⟨hour, cs⟩, -, h⟩ := Option.bind_eq_some_iff.1 h
      obtain ⟨cs, -, h⟩ := Option.bind_eq_some_iff.1 h
      obtain ⟨⟨minute, cs⟩, -, h⟩ := Option.bind_eq_some_iff.1 h
      obtain ⟨cs, -, h⟩ := Option.bind_eq_some_iff.1 h
      obtain ⟨⟨second, cs⟩, -, h⟩ := Option.bind_eq_some_iff.1 h
      obtain ⟨⟨micros, cs⟩, hmicros, h⟩ := Option.bind_eq_some_iff.1 h
      obtain ⟨offset, hoffset, h⟩ := Option.bind_eq_some_iff.1 h
      obtain ⟨date, hdate, h⟩ := Option.bind_eq_some_iff.1 h
      obtain ⟨moment, hmoment, h⟩ := Option.bind_eq_some_iff.1 h
      exact ⟨year, month, day, date, hour, minute, second, micros, moment, offset,
        lt_of_readFixed hyear, hdate, hmoment, lt_of_readMicros hmicros,
        bounds_of_readOffset? hoffset, (Option.some.inj h).symm⟩
    · cases h
  · cases h

theorem valid_of_readInternet? {cs : List Char} (h : readInternet? cs = some m) : m.Valid := by
  obtain ⟨year, month, day, date, hour, minute, second, micros, moment, offset, hfour, hdate,
    hmoment, hmicros, ⟨hlow, hhigh⟩, rfl⟩ := exists_of_readInternet? h
  obtain ⟨hvalid, hyear⟩ := valid_of_fields hdate hmoment hmicros
  -- four digits are far from the ends of the calendar
  refine valid_atOffset hvalid hlow hhigh ?_ ?_
  · unfold Date.minYear
    omega
  · unfold Date.maxYear
    omega

theorem valid_midnight {date : Date} (hdate : date.Valid) (hmin : Date.minYear ≤ date.year)
    (hmax : date.year ≤ Date.maxYear) : (midnight date).Valid :=
  ⟨hdate, hmin, hmax, Nat.zero_le 23, Nat.zero_le 59, Nat.zero_le 60, Nat.pow_pos (by decide)⟩

theorem valid_of_readTime? {date : Date} {cs : List Char} (hdate : date.Valid)
    (hmin : Date.minYear ≤ date.year) (hmax : date.year ≤ Date.maxYear)
    (h : readTime? date cs = some m) : m.Valid := by
  obtain ⟨⟨hour, cs⟩, -, h⟩ := Option.bind_eq_some_iff.1 h
  obtain ⟨cs, -, h⟩ := Option.bind_eq_some_iff.1 h
  obtain ⟨⟨minute, cs⟩, -, h⟩ := Option.bind_eq_some_iff.1 h
  obtain ⟨cs, -, h⟩ := Option.bind_eq_some_iff.1 h
  obtain ⟨⟨second, cs⟩, -, h⟩ := Option.bind_eq_some_iff.1 h
  obtain ⟨⟨micros, cs⟩, hmicros, h⟩ := Option.bind_eq_some_iff.1 h
  dsimp only at h
  split_ifs at h
  obtain ⟨rfl, hhour, hminute, hsecond⟩ := ofFields?_eq_some_iff.1 h
  exact ⟨hdate, hmin, hmax, hhour, hminute, hsecond, lt_of_readMicros hmicros⟩

theorem valid_of_readLocal? {cs : List Char} (h : readLocal? cs = some m) : m.Valid := by
  obtain ⟨⟨date, cs⟩, hread, h⟩ := Option.bind_eq_some_iff.1 h
  obtain ⟨⟨year, cs'⟩, -, hread⟩ := Option.bind_eq_some_iff.1 hread
  obtain ⟨cs', -, hread⟩ := Option.bind_eq_some_iff.1 hread
  obtain ⟨⟨month, cs'⟩, -, hread⟩ := Option.bind_eq_some_iff.1 hread
  obtain ⟨cs', -, hread⟩ := Option.bind_eq_some_iff.1 hread
  obtain ⟨⟨day, cs'⟩, -, hread⟩ := Option.bind_eq_some_iff.1 hread
  obtain ⟨date', hdate, hread⟩ := Option.bind_eq_some_iff.1 hread
  obtain ⟨rfl, -⟩ := Prod.mk.inj (Option.some.inj hread)
  obtain ⟨-, hvalid, hmin, hmax⟩ := Date.ofFields?_eq_some_iff.1 hdate
  dsimp only at h
  split at h
  · obtain rfl := Option.some.inj h
    exact valid_midnight hvalid hmin hmax
  · exact valid_of_readTime? hvalid hmin hmax h
  · exact valid_of_readTime? hvalid hmin hmax h

/-- **Every moment that is read is valid.** -/
theorem valid_of_ofText? {s : String} (h : ofText? s = some m) : m.Valid := by
  unfold ofText? at h
  cases hinternet : readInternet? s.toList with
  | some m' =>
    rw [hinternet] at h
    exact valid_of_readInternet? (hinternet.trans h)
  | none =>
    rw [hinternet] at h
    exact valid_of_readLocal? h

end Moment

end DocFilter
