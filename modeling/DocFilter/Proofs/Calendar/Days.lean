import DocFilter.Calendar.Date
import Mathlib.Algebra.BigOperators.Intervals
import Mathlib.Algebra.Order.BigOperators.Group.Finset

/-!
# Counting days

The days of the calendar are numbered one after the other. The number of a day counts the days of
the years before its year, which the rule for leap years gives, the days of the months before its
month, and its own day of the month. The neighbours of a day have the neighbouring numbers, and no
two days have the same number.

## Main definitions

* `Date.Valid`: the days of the calendar, without a limit on the years.
* `Date.dayNumber`: the number of a day.

## Main results

* `Date.dayNumber_next`, `Date.dayNumber_previous`: the numbers of the neighbouring days.
* `Date.eq_of_dayNumber_eq`: a day is known by its number.
-/

namespace DocFilter

/-! ### Years and months -/

/-- The number of days of a year. -/
def yearLength (year : Int) : Nat :=
  if isLeapYear year then 366 else 365

/-- The days before a year, counted from the start of year zero: one more than 365 for each leap
year among them. Years before zero have a negative count. -/
def daysBeforeYear (year : Int) : Int :=
  365 * year + ((year + 3) / 4 - (year + 99) / 100 + (year + 399) / 400)

/-- The days of a year before a month. -/
def daysBeforeMonth (year : Int) (month : Nat) : Nat :=
  ∑ m ∈ Finset.Ico 1 month, daysInMonth year m

theorem isLeapYear_iff {year : Int} :
    isLeapYear year ↔ year % 4 = 0 ∧ (year % 100 ≠ 0 ∨ year % 400 = 0) := by
  simp [isLeapYear]

/-- A year has 366 days if it is a leap year, and 365 otherwise. -/
theorem daysBeforeYear_succ (year : Int) :
    daysBeforeYear (year + 1) = daysBeforeYear year + yearLength year := by
  unfold daysBeforeYear yearLength
  split_ifs with hleap <;> rw [isLeapYear_iff] at hleap <;> omega

theorem daysBeforeYear_mono {year year' : Int} (h : year ≤ year') :
    daysBeforeYear year ≤ daysBeforeYear year' := by
  unfold daysBeforeYear
  omega

theorem daysBeforeMonth_succ (year : Int) {month : Nat} (h : 1 ≤ month) :
    daysBeforeMonth year (month + 1) = daysBeforeMonth year month + daysInMonth year month :=
  Finset.sum_Ico_succ_top h _

theorem daysBeforeMonth_mono (year : Int) {month month' : Nat} (h : month ≤ month') :
    daysBeforeMonth year month ≤ daysBeforeMonth year month' :=
  Finset.sum_le_sum_of_subset (Finset.Ico_subset_Ico_right h)

/-- The twelve months make the year. -/
theorem daysBeforeMonth_thirteen (year : Int) : daysBeforeMonth year 13 = yearLength year := by
  by_cases hleap : isLeapYear year <;>
    simp [daysBeforeMonth, Finset.sum_Ico_succ_top, daysInMonth, yearLength, hleap]

namespace Date

/-! ### Days -/

/-- The calendar has the day. -/
structure Valid (d : Date) : Prop where
  month_pos : 1 ≤ d.month
  month_le : d.month ≤ 12
  day_pos : 1 ≤ d.day
  day_le : d.day ≤ daysInMonth d.year d.month

theorem ofFields?_eq_some_iff {year : Int} {month day : Nat} {d : Date} :
    ofFields? year month day = some d ↔
      d = ⟨year, month, day⟩ ∧ d.Valid ∧ minYear ≤ d.year ∧ d.year ≤ maxYear := by
  unfold ofFields?
  constructor
  · intro h
    split_ifs at h with hfields
    obtain ⟨hmin, hmax, hmonth, hmonth', hday, hday'⟩ := hfields
    obtain rfl := Option.some.inj h
    exact ⟨rfl, ⟨hmonth, hmonth', hday, hday'⟩, hmin, hmax⟩
  · rintro ⟨rfl, hvalid, hmin, hmax⟩
    rw [if_pos ⟨hmin, hmax, hvalid.month_pos, hvalid.month_le, hvalid.day_pos, hvalid.day_le⟩]

/-- The number of a day. The first day of year zero has number 1. -/
def dayNumber (d : Date) : Int :=
  daysBeforeYear d.year + daysBeforeMonth d.year d.month + d.day

variable {d d' : Date}

theorem daysInMonth_pos (year : Int) (month : Nat) : 0 < daysInMonth year month := by
  unfold daysInMonth
  split
  · split_ifs <;> omega
  all_goals omega

theorem daysInMonth_le (year : Int) (month : Nat) : daysInMonth year month ≤ 31 := by
  unfold daysInMonth
  split
  · split_ifs <;> omega
  all_goals omega

/-! ### Neighbours -/

theorem valid_next (h : d.Valid) : d.next.Valid := by
  obtain ⟨hmonth, hmonth', hday, hday'⟩ := h
  unfold next
  split_ifs with hlast hdecember
  · exact ⟨hmonth, hmonth', Nat.le_add_left 1 _, hlast⟩
  · exact ⟨Nat.le_add_left 1 _, hdecember, Nat.le_refl 1, daysInMonth_pos _ _⟩
  · exact ⟨Nat.le_refl 1, Nat.le_add_left 1 11, Nat.le_refl 1, daysInMonth_pos _ _⟩

theorem valid_previous (h : d.Valid) : d.previous.Valid := by
  obtain ⟨hmonth, hmonth', hday, hday'⟩ := h
  unfold previous
  split_ifs with hfirst hjanuary
  · exact ⟨hmonth, hmonth', Nat.le_sub_one_of_lt hfirst, Nat.le_trans (Nat.sub_le _ 1) hday'⟩
  · exact ⟨Nat.le_sub_one_of_lt hjanuary, Nat.le_trans (Nat.sub_le _ 1) hmonth',
      daysInMonth_pos _ _, Nat.le_refl _⟩
  · exact ⟨Nat.le_add_left 1 11, Nat.le_refl 12, Nat.le_add_left 1 30, Nat.le_refl 31⟩

/-- The day before comes before the day. -/
theorem next_previous (h : d.Valid) : d.previous.next = d := by
  obtain ⟨year, month, day⟩ := d
  obtain ⟨hmonth, hmonth', hday, hday'⟩ := h
  dsimp only at hmonth hmonth' hday hday'
  unfold previous
  dsimp only
  split_ifs with hfirst hjanuary
  · have hlast : day - 1 < daysInMonth year month := by omega
    rw [next, if_pos hlast, Nat.sub_add_cancel hday]
  · have hdecember : month - 1 < 12 := by omega
    rw [next, if_neg (Nat.lt_irrefl _), if_pos hdecember, Nat.sub_add_cancel hmonth]
    congr 1
    omega
  · have hlast : ¬31 < daysInMonth (year - 1) 12 := Nat.lt_irrefl 31
    rw [next, if_neg hlast, if_neg (Nat.lt_irrefl 12), Int.sub_add_cancel]
    congr 1 <;> omega

/-- **The next day has the next number.** -/
theorem dayNumber_next (h : d.Valid) : d.next.dayNumber = d.dayNumber + 1 := by
  obtain ⟨year, month, day⟩ := d
  obtain ⟨hmonth, hmonth', hday, hday'⟩ := h
  have hmonths := daysBeforeMonth_succ year hmonth
  unfold next dayNumber
  dsimp only at *
  split_ifs with hlast hdecember
  · push_cast
    omega
  · push_cast [hmonths]
    omega
  · -- the year ends, and its months make up its length
    obtain rfl : month = 12 := by omega
    have hyears := daysBeforeYear_succ year
    have hlength : daysBeforeMonth year (12 + 1) = yearLength year := daysBeforeMonth_thirteen year
    have hjanuary : daysBeforeMonth (year + 1) 1 = 0 := rfl
    dsimp only
    rw [hyears, hjanuary]
    omega

/-- **The day before has the number before.** -/
theorem dayNumber_previous (h : d.Valid) : d.previous.dayNumber = d.dayNumber - 1 := by
  have hnext := dayNumber_next (valid_previous h)
  rw [next_previous h] at hnext
  omega

theorem year_next (d : Date) : d.year ≤ d.next.year ∧ d.next.year ≤ d.year + 1 := by
  unfold next
  split_ifs <;> dsimp only <;> omega

theorem year_previous (d : Date) : d.year - 1 ≤ d.previous.year ∧ d.previous.year ≤ d.year := by
  unfold previous
  split_ifs <;> dsimp only <;> omega

/-! ### Days by their numbers -/

/-- A day of a month is within the days up to the end of the month. -/
theorem dayNumber_le (h : d.Valid) :
    d.dayNumber ≤ daysBeforeYear d.year + daysBeforeMonth d.year (d.month + 1) := by
  have hmonths := daysBeforeMonth_succ d.year h.month_pos
  have hday := h.day_le
  unfold dayNumber
  omega

theorem lt_dayNumber (h : d.Valid) :
    daysBeforeYear d.year + daysBeforeMonth d.year d.month < d.dayNumber := by
  have hday := h.day_pos
  unfold dayNumber
  omega

/-- The days of a year come after those of the years before. -/
theorem dayNumber_lt_of_year_lt (h : d.Valid) (h' : d'.Valid) (hyear : d.year < d'.year) :
    d.dayNumber < d'.dayNumber := by
  have hmonth : d.month + 1 ≤ 13 := Nat.succ_le_succ h.month_le
  calc d.dayNumber
      ≤ daysBeforeYear d.year + daysBeforeMonth d.year (d.month + 1) := dayNumber_le h
    _ ≤ daysBeforeYear d.year + daysBeforeMonth d.year 13 := by
        have hmonths := daysBeforeMonth_mono d.year hmonth
        omega
    _ = daysBeforeYear (d.year + 1) := by
        rw [daysBeforeMonth_thirteen, daysBeforeYear_succ]
    _ ≤ daysBeforeYear d'.year := daysBeforeYear_mono hyear
    _ ≤ daysBeforeYear d'.year + daysBeforeMonth d'.year d'.month := by omega
    _ < d'.dayNumber := lt_dayNumber h'

/-- Within a year, the days of a month come after those of the months before. -/
theorem dayNumber_lt_of_month_lt (h : d.Valid) (h' : d'.Valid) (hyear : d.year = d'.year)
    (hmonth : d.month < d'.month) : d.dayNumber < d'.dayNumber := by
  have hmonths := daysBeforeMonth_mono d'.year (show d.month + 1 ≤ d'.month from hmonth)
  calc d.dayNumber
      ≤ daysBeforeYear d.year + daysBeforeMonth d.year (d.month + 1) := dayNumber_le h
    _ ≤ daysBeforeYear d'.year + daysBeforeMonth d'.year d'.month := by
        rw [hyear]
        omega
    _ < d'.dayNumber := lt_dayNumber h'

/-- **A day is known by its number.** -/
theorem eq_of_dayNumber_eq (h : d.Valid) (h' : d'.Valid) (heq : d.dayNumber = d'.dayNumber) :
    d = d' := by
  have hyear : d.year = d'.year := by
    rcases Int.lt_trichotomy d.year d'.year with hlt | hyear | hlt
    · exact absurd heq (dayNumber_lt_of_year_lt h h' hlt).ne
    · exact hyear
    · exact absurd heq (dayNumber_lt_of_year_lt h' h hlt).ne'
  have hmonth : d.month = d'.month := by
    rcases Nat.lt_trichotomy d.month d'.month with hlt | hmonth | hlt
    · exact absurd heq (dayNumber_lt_of_month_lt h h' hyear hlt).ne
    · exact hmonth
    · exact absurd heq (dayNumber_lt_of_month_lt h' h hyear.symm hlt).ne'
  have hday : d.day = d'.day := by
    unfold dayNumber at heq
    rw [hyear, hmonth] at heq
    omega
  cases d
  cases d'
  dsimp only at hyear hmonth hday
  rw [hyear, hmonth, hday]

end Date

end DocFilter
