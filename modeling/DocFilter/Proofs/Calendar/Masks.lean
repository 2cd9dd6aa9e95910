import DocFilter.Proofs.Calendar.Normal

/-!
# Masks of dates and timestamps

The text of a date or timestamp is bound to a placeholder that converts it by a mask. A mask has a
fixed number of digits for each field and single characters between them. The normal forms fit
their masks as long as the year has four digits and the second is not a leap second. A year with a
sign and a second of 60 are accepted and written all the same, and then the text does not fit.

## Main definitions

* `MaskPart`, `Conversion.mask`: masks, and the mask of a conversion.
* `MaskPart.fields?`: the numbers that a text has in the fields of a mask.
* `FitsDate`, `FitsTimestamp`: the texts that the two conversions take.

## Main results

* `Moment.fitsDate_text_iff`, `Moment.fitsTimestamp_text_iff`: which normal forms fit.
* `Operand.temporal_fits_iff`: which accepted strings are bound as texts that fit.
-/

namespace DocFilter

open Digit

/-! ### Masks -/

/-- A field of a date or time of day. -/
inductive MaskField where
  | year | month | day | hour | minute | second | fraction
deriving DecidableEq, Repr

/-- A part of a mask: the digits of a field, or a character that stands for itself. -/
inductive MaskPart where
  | field (f : MaskField)
  | mark (c : Char)
deriving DecidableEq, Repr

namespace MaskField

/-- The field in a mask of SQL. -/
def sql : MaskField → String
  | year => "YYYY"
  | month => "MM"
  | day => "DD"
  | hour => "HH24"
  | minute => "MI"
  | second => "SS"
  | fraction => "FF"

/-- How many digits the field has; a fraction goes down to the microsecond. -/
def width : MaskField → Nat
  | year => 4
  | fraction => 6
  | _ => 2

theorem width_pos (f : MaskField) : 0 < f.width := by
  cases f <;> decide

end MaskField

namespace MaskPart

/-- The part in a mask of SQL, where letters that stand for themselves are quoted. -/
def sql : MaskPart → String
  | field f => f.sql
  | mark c => if c.isAlpha then "\"" ++ c.toString ++ "\"" else c.toString

/-- The numbers in the fields of a text that has exactly the parts of a mask. -/
def fields? : List MaskPart → List Char → Option (List Nat)
  | [], [] => some []
  | [], _ :: _ => none
  | mark c :: mask, cs => do fields? mask (← expect c cs)
  | field f :: mask, cs => do
    let (n, cs) ← readFixed f.width cs
    return n :: (← fields? mask cs)

end MaskPart

/-- The mask by which a conversion takes a text. The conversions of numbers have none. -/
def Conversion.mask : Conversion → List MaskPart
  | dateString => date
  | timestampString => date ++ time
  | _ => []
where
  date : List MaskPart := [.field .year, .mark '-', .field .month, .mark '-', .field .day]
  time : List MaskPart :=
    [.mark 'T', .field .hour, .mark ':', .field .minute, .mark ':', .field .second, .mark '.',
      .field .fraction]

/-- The masks are those in the placeholders of the statement. -/
theorem Conversion.placeholder_mask :
    dateString.placeholder =
        "TO_DATE(?, '" ++ String.join (dateString.mask.map MaskPart.sql) ++ "')" ∧
      timestampString.placeholder =
        "TO_TIMESTAMP(?, '" ++ String.join (timestampString.mask.map MaskPart.sql) ++ "')" := by
  decide

/-- A text in the mask of dates: four digits, a month of the year and a day of the month. -/
def FitsDate (text : String) : Prop :=
  ∃ year month day : Nat,
    MaskPart.fields? Conversion.dateString.mask text.toList = some [year, month, day] ∧
    Date.Valid ⟨year, month, day⟩

/-- A text in the mask of timestamps: a date, a time of day without leap seconds, and six digits. -/
def FitsTimestamp (text : String) : Prop :=
  ∃ year month day hour minute second micros : Nat,
    MaskPart.fields? Conversion.timestampString.mask text.toList =
      some [year, month, day, hour, minute, second, micros] ∧
    Date.Valid ⟨year, month, day⟩ ∧ hour ≤ 23 ∧ minute ≤ 59 ∧ second ≤ 59

/-! ### Fields of normal forms -/

namespace MaskPart

theorem fields?_mark (c : Char) (mask : List MaskPart) (cs : List Char) :
    fields? (mark c :: mask) (c :: cs) = fields? mask cs := by
  rw [fields?, expect_cons, Option.bind_eq_bind, Option.bind_some]

/-- A number with leading zeros fits in a field of its width. -/
theorem fields?_zeroPadded (f : MaskField) (width : Nat) (hwidth : f.width = width) {n : Nat}
    (h : n < 10 ^ width) (mask : List MaskPart) (cs : List Char) :
    fields? (field f :: mask) ((zeroPadded width n).toList ++ cs) =
      (fields? mask cs).map (n :: ·) := by
  subst hwidth
  rw [fields?, readFixed_zeroPadded f.width_pos h cs, Option.bind_eq_bind, Option.bind_some]
  exact Option.map_eq_bind.symm

/-- No field begins with a sign. -/
theorem fields?_of_sign {c : Char} (hc : ofChar? c = none) (f : MaskField) (mask : List MaskPart)
    (cs : List Char) : fields? (field f :: mask) (c :: cs) = none := by
  have hfixed : readFixed f.width (c :: cs) = none := by
    obtain ⟨width, hwidth⟩ := Nat.exists_eq_add_one.2 f.width_pos
    simp [readFixed, run, hc, hwidth]
  rw [fields?, hfixed, Option.bind_eq_bind, Option.bind_none]

end MaskPart

namespace Date

variable {d : Date}

theorem yearText_of_four_digits {year : Int} (h : 0 ≤ year ∧ year ≤ 9999) :
    yearText year = zeroPadded 4 year.natAbs := by
  rw [yearText, if_neg (by omega), if_neg (by omega), String.empty_append]

/-- Every other year is written with a sign. -/
theorem exists_sign_yearText {year : Int} (h : ¬(0 ≤ year ∧ year ≤ 9999)) :
    ∃ c cs, ofChar? c = none ∧ (yearText year).toList = c :: cs := by
  unfold yearText
  split_ifs with hnegative hlarge
  · exact ⟨'-', (zeroPadded 4 year.natAbs).toList, by decide, by simp⟩
  · exact ⟨'+', (zeroPadded 4 year.natAbs).toList, by decide, by simp⟩
  · exact absurd ⟨Int.not_lt.1 hnegative, Int.not_lt.1 hlarge⟩ h

/-- The fields of a date whose year has four digits, before more parts of a mask. -/
theorem fields?_text (h : d.Valid) (hyear : 0 ≤ d.year ∧ d.year ≤ 9999) (mask : List MaskPart)
    (rest : List Char) :
    MaskPart.fields? (Conversion.mask.date ++ mask) (d.text.toList ++ rest) =
      (MaskPart.fields? mask rest).map fun ns => d.year.natAbs :: d.month :: d.day :: ns := by
  have hfour : d.year.natAbs < 10 ^ 4 := by omega
  rw [toList_text_append, yearText_of_four_digits hyear, dateText, Conversion.mask.date]
  simp only [List.cons_append, List.nil_append, MaskPart.fields?_mark,
    MaskPart.fields?_zeroPadded .year 4 rfl hfour,
    MaskPart.fields?_zeroPadded .month 2 rfl h.month_lt,
    MaskPart.fields?_zeroPadded .day 2 rfl h.day_lt, Option.map_map]
  rfl

/-- A year with a sign fits in no mask of dates. -/
theorem fields?_text_of_sign (hyear : ¬(0 ≤ d.year ∧ d.year ≤ 9999)) (mask : List MaskPart)
    (rest : List Char) :
    MaskPart.fields? (Conversion.mask.date ++ mask) (d.text.toList ++ rest) = none := by
  obtain ⟨c, cs, hc, htext⟩ := exists_sign_yearText hyear
  rw [toList_text_append, dateText, htext]
  exact MaskPart.fields?_of_sign hc .year _ _

theorem natCast_year (hyear : 0 ≤ d.year) : (⟨d.year.natAbs, d.month, d.day⟩ : Date) = d := by
  rw [Int.natAbs_of_nonneg hyear]

end Date

namespace Moment

variable {m : Moment}

/-- **A date fits its mask exactly if its year has four digits.** -/
theorem fitsDate_text_iff (h : m.Valid) :
    FitsDate m.date.text ↔ 0 ≤ m.date.year ∧ m.date.year ≤ 9999 := by
  constructor
  · rintro ⟨year, month, day, hfields, -⟩
    by_contra hyear
    have hnone := Date.fields?_text_of_sign hyear [] []
    rw [List.append_nil, List.append_nil] at hnone
    exact absurd (hnone.symm.trans hfields) nofun
  · intro hyear
    have hfields := Date.fields?_text h.date hyear [] []
    rw [List.append_nil, List.append_nil] at hfields
    refine ⟨_, _, _, hfields, ?_⟩
    rw [Date.natCast_year hyear.1]
    exact h.date

/-- The fields of a time of day behind the date. -/
theorem fields?_timeText (h : m.Valid) :
    MaskPart.fields? Conversion.mask.time m.timeText =
      some [m.hour, m.minute, m.second, m.micros] := by
  have hmicros := MaskPart.fields?_zeroPadded .fraction 6 rfl h.micros_lt [] []
  rw [List.append_nil] at hmicros
  rw [timeText, clockText, Conversion.mask.time]
  simp only [MaskPart.fields?_mark, MaskPart.fields?_zeroPadded .hour 2 rfl h.hour_lt,
    MaskPart.fields?_zeroPadded .minute 2 rfl h.minute_lt,
    MaskPart.fields?_zeroPadded .second 2 rfl h.second_lt, hmicros]
  rfl

/-- **A timestamp fits its mask exactly if its year has four digits and its second is no leap
second.** -/
theorem fitsTimestamp_text_iff (h : m.Valid) :
    FitsTimestamp m.text ↔ (0 ≤ m.date.year ∧ m.date.year ≤ 9999) ∧ m.second ≠ 60 := by
  by_cases hyear : 0 ≤ m.date.year ∧ m.date.year ≤ 9999
  · have hfields := Date.fields?_text h.date hyear Conversion.mask.time m.timeText
    rw [← toList_text, fields?_timeText h, Option.map_some] at hfields
    constructor
    · rintro ⟨year, month, day, hour, minute, second, micros, hread, -, -, -, hsecond⟩
      have hsame := hfields.symm.trans hread
      simp only [Option.some.injEq, List.cons.injEq] at hsame
      exact ⟨hyear, by omega⟩
    · rintro ⟨-, hleap⟩
      have hsecond := h.second_le
      refine ⟨_, _, _, _, _, _, _, hfields, ?_, h.hour_le, h.minute_le, by omega⟩
      rw [Date.natCast_year hyear.1]
      exact h.date
  · have hnone := Date.fields?_text_of_sign hyear Conversion.mask.time m.timeText
    rw [← toList_text] at hnone
    refine ⟨?_, fun hfits => absurd hfits.1 hyear⟩
    rintro ⟨year, month, day, hour, minute, second, micros, hread, -⟩
    exact absurd (hnone.symm.trans hread) nofun

end Moment

/-! ### Operands -/

namespace Operand

/-- **Which accepted strings are bound as texts that fit their mask.** As a date, these are the
strings that denote a moment, in universal time, of the years 0 to 9999. As a timestamp, the moment
must not be in a leap second besides. All other fields always fit. -/
theorem temporal_fits_iff (key s : String) (sense : Sense) :
    (∀ x, toDate key ⟨.string s, sense⟩ = .ok x →
      ∃ m t, Moment.ofText? s = some m ∧ x = ⟨.string t, .date⟩ ∧ x.conversion = .dateString ∧
        (FitsDate t ↔ 0 ≤ m.date.year ∧ m.date.year ≤ 9999)) ∧
    ∀ y, toTimestamp key ⟨.string s, sense⟩ = .ok y →
      ∃ m t, Moment.ofText? s = some m ∧ y = ⟨.string t, .timestamp⟩ ∧
        y.conversion = .timestampString ∧
        (FitsTimestamp t ↔ (0 ≤ m.date.year ∧ m.date.year ≤ 9999) ∧ m.second ≠ 60) := by
  constructor
  · intro x hx
    obtain ⟨m, hm⟩ := exists_toTemporal_string_iff.1 ⟨x, hx⟩
    rw [toDate_of_ofText? hm] at hx
    obtain rfl := Except.ok.inj hx
    exact ⟨m, _, hm, rfl, rfl, Moment.fitsDate_text_iff (Moment.valid_of_ofText? hm)⟩
  · intro y hy
    obtain ⟨m, hm⟩ := exists_toTemporal_string_iff.1 ⟨y, hy⟩
    rw [toTimestamp_of_ofText? hm] at hy
    obtain rfl := Except.ok.inj hy
    exact ⟨m, _, hm, rfl, rfl, Moment.fitsTimestamp_text_iff (Moment.valid_of_ofText? hm)⟩

/-- A local time that an offset moves back to the leap day. -/
theorem temporal_fits_iff_leap_day :
    ∃ s, s = "2024-03-01T00:30:59.5+01:00" ∧
      toDate "$date" ⟨.string s, .plain⟩ = .ok ⟨.string "2024-02-29", .date⟩ ∧
      FitsDate "2024-02-29" ∧
      toTimestamp "$timestamp" ⟨.string s, .plain⟩ =
        .ok ⟨.string "2024-02-29T23:30:59.500000", .timestamp⟩ ∧
      FitsTimestamp "2024-02-29T23:30:59.500000" := by
  have hread : Moment.ofText? "2024-03-01T00:30:59.5+01:00" =
      some ⟨⟨2024, 2, 29⟩, 23, 30, 59, 500000⟩ := by decide +kernel
  have hdate : toDate "$date" ⟨.string "2024-03-01T00:30:59.5+01:00", .plain⟩ =
      .ok ⟨.string "2024-02-29", .date⟩ := by decide +kernel
  have htimestamp : toTimestamp "$timestamp" ⟨.string "2024-03-01T00:30:59.5+01:00", .plain⟩ =
      .ok ⟨.string "2024-02-29T23:30:59.500000", .timestamp⟩ := by decide +kernel
  obtain ⟨m, t, hm, ht, -, hfits⟩ := (temporal_fits_iff _ _ _).1 _ hdate
  obtain ⟨m', t', hm', ht', -, hfits'⟩ := (temporal_fits_iff _ _ _).2 _ htimestamp
  obtain rfl := Option.some.inj (hm.symm.trans hread)
  obtain rfl := Option.some.inj (hm'.symm.trans hread)
  obtain rfl : t = "2024-02-29" := by simpa using ht.symm
  obtain rfl : t' = "2024-02-29T23:30:59.500000" := by simpa using ht'.symm
  exact ⟨_, rfl, hdate, hfits.2 (by decide), htimestamp, hfits'.2 (by decide)⟩

/-- An offset moves the last hour of year 9999 into a year with a sign, and a leap second stays. -/
theorem temporal_not_fits :
    toDate "$date" ⟨.string "9999-12-31T23:30:00-01:00", .plain⟩ =
        .ok ⟨.string "+10000-01-01", .date⟩ ∧
      ¬FitsDate "+10000-01-01" ∧
      toTimestamp "$timestamp" ⟨.string "2016-12-31T23:59:60Z", .plain⟩ =
        .ok ⟨.string "2016-12-31T23:59:60.000000", .timestamp⟩ ∧
      ¬FitsTimestamp "2016-12-31T23:59:60.000000" := by
  refine ⟨by decide +kernel, ?_, by decide +kernel, ?_⟩
  · rintro ⟨year, month, day, hfields, -⟩
    have hread : MaskPart.fields? Conversion.dateString.mask "+10000-01-01".toList = none := by
      decide +kernel
    exact absurd (hread.symm.trans hfields) nofun
  · rintro ⟨year, month, day, hour, minute, second, micros, hfields, -, -, -, hsecond⟩
    have hread : MaskPart.fields? Conversion.timestampString.mask
        "2016-12-31T23:59:60.000000".toList = some [2016, 12, 31, 23, 59, 60, 0] := by
      decide +kernel
    have hsame := hread.symm.trans hfields
    simp only [Option.some.injEq, List.cons.injEq] at hsame
    omega

end Operand

end DocFilter
