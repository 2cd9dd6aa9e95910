import DocFilter.Operand
import DocFilter.Proofs.Calendar.Moments

/-!
# Normal forms of dates and timestamps

The texts that dates and timestamps are brought to are read back as what they were written from:
they have no offset, so that they are no internet timestamps, and as local times they give all
fields back, also for years with a sign. So bringing a text to its normal form twice is the same as
doing it once, and a timestamp in normal form starts with its date in normal form.

## Main definitions

* `dateText`, `clockText`: the fields of a date and of a time of day with the signs between them.

## Main results

* `Moment.readInternet?_fields`: how an internet timestamp is read behind its fields.
* `Moment.ofText?_text`, `Moment.ofText?_date_text`: what is written is read back.
* `Operand.temporal_normal_form`: the two normal forms of a string agree, and are kept.
-/

namespace DocFilter

open Digit

/-! ### The texts -/

/-- The fields of a date, behind the text of its year and before `rest`. -/
def dateText (year : String) (month day : Nat) (rest : List Char) : List Char :=
  year.toList ++ '-' :: ((zeroPadded 2 month).toList ++ '-' :: ((zeroPadded 2 day).toList ++ rest))

/-- The fields of a time of day before `rest`. -/
def clockText (hour minute second : Nat) (rest : List Char) : List Char :=
  (zeroPadded 2 hour).toList ++
    ':' :: ((zeroPadded 2 minute).toList ++ ':' :: ((zeroPadded 2 second).toList ++ rest))

theorem Date.toList_text_append (d : Date) (rest : List Char) :
    d.text.toList ++ rest = dateText (yearText d.year) d.month d.day rest := by
  simp [Date.text, dateText]

namespace Moment

/-- The text of a moment behind its date. -/
def timeText (m : Moment) : List Char :=
  'T' :: clockText m.hour m.minute m.second ('.' :: (zeroPadded 6 m.micros).toList)

theorem toList_text (m : Moment) : m.text.toList = m.date.text.toList ++ m.timeText := by
  simp [Moment.text, timeText, clockText]

end Moment

theorem expect_cons (c : Char) (cs : List Char) : expect c (c :: cs) = some cs :=
  if_pos rfl

theorem bind_of_eq_some {α β : Type} {x : Option α} {a : α} {f : α → Option β} (h : x = some a) :
    x >>= f = f a := by
  rw [h, Option.bind_eq_bind, Option.bind_some]

theorem Date.Valid.month_lt {d : Date} (h : d.Valid) : d.month < 10 ^ 2 :=
  Nat.lt_of_le_of_lt h.month_le (by decide)

theorem Date.Valid.day_lt {d : Date} (h : d.Valid) : d.day < 10 ^ 2 :=
  Nat.lt_of_le_of_lt h.day_le (Nat.lt_of_le_of_lt (daysInMonth_le _ _) (by decide))

namespace Moment

variable {m : Moment} {d : Date}

theorem Valid.hour_lt (h : m.Valid) : m.hour < 10 ^ 2 :=
  Nat.lt_of_le_of_lt h.hour_le (by decide)

theorem Valid.minute_lt (h : m.Valid) : m.minute < 10 ^ 2 :=
  Nat.lt_of_le_of_lt h.minute_le (by decide)

theorem Valid.second_lt (h : m.Valid) : m.second < 10 ^ 2 :=
  Nat.lt_of_le_of_lt h.second_le (by decide)

/-- The microseconds that are written are read back. -/
theorem readMicros_zeroPadded {micros : Nat} (h : micros < 10 ^ 6) :
    readMicros ('.' :: (zeroPadded 6 micros).toList) = some (micros, []) := by
  have hread : readMicros ('.' :: ((padded 6 micros).map toChar ++ [])) = _ :=
    readMicros_map_toChar (padded_ne_nil 6 micros) nofun
  rwa [List.append_nil, ← toList_zeroPadded, value_padded, length_padded (by decide) h,
    Nat.mul_div_cancel _ (by decide)] at hread

/-! ### Local times -/

theorem readDate?_text (h : d.Valid) (hmin : Date.minYear ≤ d.year) (hmax : d.year ≤ Date.maxYear)
    (rest : List Char) : readDate? (d.text.toList ++ rest) = some (d, rest) := by
  have hyear (cs : List Char) :
      readYear ((Date.yearText d.year).toList ++ '-' :: cs) = some (d.year, '-' :: cs) :=
    readYear_yearText d.year (by rintro c ⟨⟩; decide)
  have hmonth (cs : List Char) := readField_zeroPadded (by decide) h.month_lt cs
  have hday := readField_zeroPadded (by decide) h.day_lt rest
  have hdate : Date.ofFields? d.year d.month d.day = some d :=
    Date.ofFields?_eq_some_iff.2 ⟨rfl, h, hmin, hmax⟩
  simp only [readDate?, Date.toList_text_append, dateText, hyear, expect_cons, hmonth, hday, hdate,
    Option.bind_eq_bind, Option.bind_some, Option.pure_def]

theorem readTime?_clockText (h : m.Valid) :
    readTime? m.date (clockText m.hour m.minute m.second ('.' :: (zeroPadded 6 m.micros).toList)) =
      some m := by
  have hhour (cs : List Char) := readField_zeroPadded (by decide) h.hour_lt cs
  have hminute (cs : List Char) := readField_zeroPadded (by decide) h.minute_lt cs
  have hsecond (cs : List Char) := readField_zeroPadded (by decide) h.second_lt cs
  have hmoment : ofFields? m.date m.hour m.minute m.second m.micros = some m :=
    ofFields?_eq_some_iff.2 ⟨rfl, h.hour_le, h.minute_le, h.second_le⟩
  simp only [readTime?, clockText, hhour, hminute, hsecond, readMicros_zeroPadded h.micros_lt,
    expect_cons, hmoment, Option.bind_eq_bind, Option.bind_some, if_true]

theorem readLocal?_text (h : m.Valid) : readLocal? m.text.toList = some m := by
  have hdate := readDate?_text h.date h.minYear_le h.le_maxYear m.timeText
  simp only [readLocal?, toList_text, hdate, Option.bind_eq_bind, Option.bind_some]
  exact readTime?_clockText h

theorem readLocal?_date_text (h : d.Valid) (hmin : Date.minYear ≤ d.year)
    (hmax : d.year ≤ Date.maxYear) : readLocal? d.text.toList = some (midnight d) := by
  have hdate := readDate?_text h hmin hmax []
  rw [List.append_nil] at hdate
  simp only [readLocal?, hdate, Option.bind_eq_bind, Option.bind_some, Option.pure_def]

/-! ### Internet timestamps -/

/-- Fields of fixed width are read off an internet timestamp, so that its fraction and its offset
decide. -/
theorem readInternet?_fields {year month day hour minute second : Nat} (hyear : year < 10 ^ 4)
    (hmonth : month < 10 ^ 2) (hday : day < 10 ^ 2) (hhour : hour < 10 ^ 2)
    (hminute : minute < 10 ^ 2) (hsecond : second < 10 ^ 2) {mark : Char}
    (hmark : isTimeMark mark) (rest : List Char) :
    readInternet? (dateText (zeroPadded 4 year) month day
        (mark :: clockText hour minute second rest)) = (do
      let (micros, cs) ← readMicros rest
      let offset ← readOffset? cs
      let date ← Date.ofFields? year month day
      let moment ← ofFields? date hour minute second micros
      return moment.atOffset offset) := by
  refine (bind_of_eq_some (readFixed_zeroPadded (by decide) hyear _)).trans ?_
  refine (bind_of_eq_some (expect_cons '-' _)).trans ?_
  refine (bind_of_eq_some (readFixed_zeroPadded (by decide) hmonth _)).trans ?_
  refine (bind_of_eq_some (expect_cons '-' _)).trans ?_
  refine (bind_of_eq_some (readFixed_zeroPadded (by decide) hday _)).trans ?_
  dsimp only
  rw [if_pos hmark]
  refine (bind_of_eq_some rfl).trans ?_
  refine (bind_of_eq_some (readFixed_zeroPadded (by decide) hhour _)).trans ?_
  refine (bind_of_eq_some (expect_cons ':' _)).trans ?_
  refine (bind_of_eq_some (readFixed_zeroPadded (by decide) hminute _)).trans ?_
  refine (bind_of_eq_some (expect_cons ':' _)).trans ?_
  exact bind_of_eq_some (readFixed_zeroPadded (by decide) hsecond _)

/-- A year with a sign does not start an internet timestamp. -/
theorem readInternet?_of_sign {c : Char} (hc : ofChar? c = none) (cs : List Char) :
    readInternet? (c :: cs) = none := by
  have hyear : readFixed 4 (c :: cs) = none := by
    simp [readFixed, run, hc]
  rw [readInternet?, hyear]
  rfl

theorem readInternet?_dateText_nil {year month day : Nat} (hyear : year < 10 ^ 4)
    (hmonth : month < 10 ^ 2) (hday : day < 10 ^ 2) :
    readInternet? (dateText (zeroPadded 4 year) month day []) = none := by
  refine (bind_of_eq_some (readFixed_zeroPadded (by decide) hyear _)).trans ?_
  refine (bind_of_eq_some (expect_cons '-' _)).trans ?_
  refine (bind_of_eq_some (readFixed_zeroPadded (by decide) hmonth _)).trans ?_
  refine (bind_of_eq_some (expect_cons '-' _)).trans ?_
  exact bind_of_eq_some (readFixed_zeroPadded (by decide) hday _)

end Moment

/-- A year is written with a sign or in four digits. -/
theorem Date.yearText_cases (year : Int) :
    (∃ c cs, ofChar? c = none ∧ (yearText year).toList = c :: cs) ∨
      year.natAbs < 10 ^ 4 ∧ yearText year = zeroPadded 4 year.natAbs := by
  unfold yearText
  split_ifs with hnegative hlarge
  · exact .inl ⟨'-', (zeroPadded 4 year.natAbs).toList, by decide, by simp⟩
  · exact .inl ⟨'+', (zeroPadded 4 year.natAbs).toList, by decide, by simp⟩
  · exact .inr ⟨by omega, String.empty_append⟩

namespace Moment

variable {m : Moment} {d : Date}

/-- A date alone is no internet timestamp. -/
theorem readInternet?_date_text (h : d.Valid) : readInternet? d.text.toList = none := by
  rw [← List.append_nil d.text.toList, Date.toList_text_append]
  rcases Date.yearText_cases d.year with ⟨c, cs, hc, hyear⟩ | ⟨hlt, hyear⟩
  · rw [dateText, hyear]
    exact readInternet?_of_sign hc _
  · rw [hyear]
    exact readInternet?_dateText_nil hlt h.month_lt h.day_lt

/-- A local time lacks the offset of an internet timestamp. -/
theorem readInternet?_text (h : m.Valid) : readInternet? m.text.toList = none := by
  rw [toList_text, Date.toList_text_append]
  rcases Date.yearText_cases m.date.year with ⟨c, cs, hc, hyear⟩ | ⟨hlt, hyear⟩
  · rw [dateText, hyear]
    exact readInternet?_of_sign hc _
  · rw [hyear, timeText, readInternet?_fields hlt h.date.month_lt h.date.day_lt h.hour_lt
      h.minute_lt h.second_lt rfl, readMicros_zeroPadded h.micros_lt]
    rfl

/-! ### Reading back -/

/-- **A moment that is written is read back.** -/
theorem ofText?_text (h : m.Valid) : ofText? m.text = some m := by
  rw [ofText?, readInternet?_text h, readLocal?_text h]
  rfl

/-- **A date that is written is read back as its midnight.** -/
theorem ofText?_date_text (h : m.Valid) : ofText? m.date.text = some (midnight m.date) := by
  rw [ofText?, readInternet?_date_text h.date,
    readLocal?_date_text h.date h.minYear_le h.le_maxYear]
  rfl

end Moment

/-! ### Dates in timestamps -/

theorem mark_not_mem_zeroPadded (width n : Nat) : 'T' ∉ (zeroPadded width n).toList := by
  have hdigit (d : Digit) : d.toChar ≠ 'T' := by revert d; decide
  rw [toList_zeroPadded, List.mem_map]
  rintro ⟨d, -, hd⟩
  exact hdigit d hd

theorem mark_not_mem_yearText (year : Int) : 'T' ∉ (Date.yearText year).toList := by
  have hdigits := mark_not_mem_zeroPadded 4 year.natAbs
  unfold Date.yearText
  split_ifs <;> simpa using hdigits

theorem mark_not_mem_date_text (d : Date) : 'T' ∉ d.text.toList := by
  have hyear := mark_not_mem_yearText d.year
  have hmonth := mark_not_mem_zeroPadded 2 d.month
  have hday := mark_not_mem_zeroPadded 2 d.day
  simp [Date.text, hyear, hmonth, hday]

/-- The date of a moment is what stands before the mark in its text. -/
theorem Moment.takeWhile_text (m : Moment) :
    m.text.toList.takeWhile (· ≠ 'T') = m.date.text.toList ∧ 'T' ∈ m.text.toList := by
  have hdate : ∀ c ∈ m.date.text.toList, decide (c ≠ 'T') = true := by
    intro c hc
    rw [decide_eq_true_eq]
    rintro rfl
    exact mark_not_mem_date_text m.date hc
  rw [toList_text, timeText]
  constructor
  · rw [List.takeWhile_append_of_pos hdate, List.takeWhile_cons_of_neg (by simp), List.append_nil]
  · exact List.mem_append_right _ List.mem_cons_self

/-! ### Operands -/

namespace Operand

variable {key : String} {s : String} {sense : Sense}

theorem toDate_of_ofText? {m : Moment} (h : Moment.ofText? s = some m) :
    toDate key ⟨.string s, sense⟩ = .ok ⟨.string m.date.text, .date⟩ := by
  simp [toDate, toTemporal, h]

theorem toTimestamp_of_ofText? {m : Moment} (h : Moment.ofText? s = some m) :
    toTimestamp key ⟨.string s, sense⟩ = .ok ⟨.string m.text, .timestamp⟩ := by
  simp [toTimestamp, toTemporal, h]

theorem exists_toTemporal_string_iff {sense' : Sense} {noun : String} {write : Moment → String} :
    (∃ o, toTemporal sense' noun write key ⟨.string s, sense⟩ = .ok o) ↔
      ∃ m, Moment.ofText? s = some m := by
  cases h : Moment.ofText? s <;> simp [toTemporal, h]

/-- **The normal forms of a string as a date and as a timestamp.** A string has one exactly if it
has the other. Normal forms are kept, the normal form of a timestamp gives that of its date, and it
starts with it. -/
theorem temporal_normal_form (key s : String) (sense : Sense) :
    ((∃ x, toDate key ⟨.string s, sense⟩ = .ok x) ↔
      ∃ y, toTimestamp key ⟨.string s, sense⟩ = .ok y) ∧
    ∀ x y, toDate key ⟨.string s, sense⟩ = .ok x → toTimestamp key ⟨.string s, sense⟩ = .ok y →
      (∀ key', x.toDate key' = .ok x ∧ y.toTimestamp key' = .ok y ∧ y.toDate key' = .ok x) ∧
      ∃ d t : String, x = ⟨.string d, .date⟩ ∧ y = ⟨.string t, .timestamp⟩ ∧
        t.toList.takeWhile (· ≠ 'T') = d.toList ∧ 'T' ∈ t.toList := by
  refine ⟨exists_toTemporal_string_iff.trans exists_toTemporal_string_iff.symm, ?_⟩
  intro x y hx hy
  obtain ⟨m, hm⟩ := exists_toTemporal_string_iff.1 ⟨x, hx⟩
  have hvalid := Moment.valid_of_ofText? hm
  rw [toDate_of_ofText? hm] at hx
  rw [toTimestamp_of_ofText? hm] at hy
  obtain rfl := Except.ok.inj hx
  obtain rfl := Except.ok.inj hy
  refine ⟨fun key' => ⟨?_, ?_, ?_⟩, m.date.text, m.text, rfl, rfl, m.takeWhile_text⟩
  · exact toDate_of_ofText? (m := .midnight m.date) (Moment.ofText?_date_text hvalid)
  · exact toTimestamp_of_ofText? (Moment.ofText?_text hvalid)
  · exact toDate_of_ofText? (Moment.ofText?_text hvalid)

/-- A leap second at the end of year 9999, in a place that is an hour behind universal time. -/
theorem temporal_normal_form_leap_second :
    ∃ x y : Operand,
      toDate "$date" ⟨.string "9999-12-31T23:30:60.1234567-01:00", .plain⟩ = .ok x ∧
      toTimestamp "$date" ⟨.string "9999-12-31T23:30:60.1234567-01:00", .plain⟩ = .ok y ∧
      x = ⟨.string "+10000-01-01", .date⟩ ∧
      y = ⟨.string "+10000-01-01T00:30:60.123456", .timestamp⟩ ∧
      x.toDate "$date" = .ok x ∧ y.toTimestamp "$date" = .ok y ∧ y.toDate "$date" = .ok x := by
  have hdate : toDate "$date" ⟨.string "9999-12-31T23:30:60.1234567-01:00", .plain⟩ =
      .ok ⟨.string "+10000-01-01", .date⟩ := by decide +kernel
  have htimestamp : toTimestamp "$date" ⟨.string "9999-12-31T23:30:60.1234567-01:00", .plain⟩ =
      .ok ⟨.string "+10000-01-01T00:30:60.123456", .timestamp⟩ := by decide +kernel
  obtain ⟨hkept, -⟩ := (temporal_normal_form _ _ _).2 _ _ hdate htimestamp
  exact ⟨_, _, hdate, htimestamp, rfl, rfl, hkept "$date"⟩

end Operand

end DocFilter
