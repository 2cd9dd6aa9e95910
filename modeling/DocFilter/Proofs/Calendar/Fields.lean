import DocFilter.Calendar.Reader
import DocFilter.Proofs.Text.Runs
import Mathlib.Tactic.Ring

/-!
# Fields of dates and times

The numbers in dates and times are written with leading zeros, in a fixed number of digits. The
readers of fields take such a number off the front of a text and leave what stands behind it. A
fraction of a second may have any number of digits, of which six count.

## Main definitions

* `Digit.padded`: the digits of a number with leading zeros.

## Main results

* `readFixed_zeroPadded`, `readField_zeroPadded`, `readYear_yearText`: what is written is read.
* `readMicros_map_toChar`: a fraction is cut to microseconds.
-/

namespace DocFilter

namespace Digit

/-! ### Values of digits -/

theorem foldl_value (n : Nat) (ds : List Digit) :
    ds.foldl (fun (n : Nat) (d : Digit) => 10 * n + d.val) n = n * 10 ^ ds.length + value ds := by
  induction ds generalizing n with
  | nil => simp [value]
  | cons d ds ih =>
    have hvalue : value (d :: ds) = d.val * 10 ^ ds.length + value ds := by
      rw [value, List.foldl_cons, ih, Nat.mul_zero, Nat.zero_add]
    rw [List.foldl_cons, ih, hvalue, List.length_cons, Nat.pow_succ]
    ring

theorem value_append (ds ds' : List Digit) :
    value (ds ++ ds') = value ds * 10 ^ ds'.length + value ds' := by
  rw [value, List.foldl_append, foldl_value]
  rfl

theorem value_lt (ds : List Digit) : value ds < 10 ^ ds.length := by
  induction ds with
  | nil => exact Nat.one_pos
  | cons d ds ih =>
    have hdigit : value [d] = d.val := Nat.zero_add _
    have hd : d.val * 10 ^ ds.length ≤ 9 * 10 ^ ds.length :=
      Nat.mul_le_mul_right _ (Nat.le_of_lt_succ d.isLt)
    rw [← List.singleton_append, value_append, hdigit, List.length_append, List.length_singleton,
      Nat.pow_add]
    omega

theorem value_replicate_zero (n : Nat) : value (List.replicate n zero) = 0 := by
  induction n with
  | zero => rfl
  | succ n ih => rw [List.replicate_succ, value, List.foldl_cons]; exact ih

/-! ### Leading zeros -/

/-- The digits of a number, filled up with leading zeros to at least `width` of them. -/
def padded (width n : Nat) : List Digit :=
  List.replicate (width - (ofNat n).length) zero ++ ofNat n

theorem length_ofNat (n : Nat) : (ofNat n).length = (Nat.toDigits 10 n).length := by
  rw [← map_toChar_ofNat, List.length_map]

theorem toList_zeroPadded (width n : Nat) :
    (zeroPadded width n).toList = (padded width n).map toChar := by
  rw [zeroPadded, padded, String.toList_ofList, List.map_append, List.map_replicate,
    map_toChar_ofNat, length_ofNat]
  rfl

theorem value_padded (width n : Nat) : value (padded width n) = n := by
  rw [padded, value_append, value_replicate_zero, Nat.zero_mul, Nat.zero_add, value_ofNat]

theorem padded_ne_nil (width n : Nat) : padded width n ≠ [] :=
  List.append_ne_nil_of_right_ne_nil _ (ofNat_ne_nil n)

theorem length_padded {width n : Nat} (hwidth : 0 < width) (h : n < 10 ^ width) :
    (padded width n).length = width := by
  have hlength := (Nat.length_toDigits_le_iff (by decide) hwidth).2 h
  rw [padded, List.length_append, List.length_replicate, length_ofNat]
  omega

/-! ### Digits at the start of a text -/

theorem run_append (ds : List Digit) (rest : List Char) :
    run (ds.map toChar ++ rest) = (ds ++ (run rest).1, (run rest).2) := by
  obtain ⟨hrest, hhead⟩ := run_eq_iff.1 (Prod.eta (run rest)).symm
  refine run_eq_iff.2 ⟨?_, hhead⟩
  rw [List.map_append, List.append_assoc, ← hrest]

theorem isBlank_toChar (d : Digit) : isBlank d.toChar = false := by
  revert d; decide

theorem skipBlank_map_toChar {ds : List Digit} (h : ds ≠ []) (rest : List Char) :
    skipBlank (ds.map toChar ++ rest) = ds.map toChar ++ rest := by
  obtain ⟨d, ds, rfl⟩ := List.exists_cons_of_ne_nil h
  rw [List.map_cons, List.cons_append, skipBlank, List.dropWhile_cons_of_neg]
  rw [isBlank_toChar]
  exact Bool.false_ne_true

end Digit

open Digit

/-! ### Numbers -/

theorem readFixed_map_toChar (ds : List Digit) (rest : List Char) :
    readFixed ds.length (ds.map toChar ++ rest) = some (value ds, rest) := by
  have hlength : (ds.map toChar).length = ds.length := List.length_map _
  have hrun : run (ds.map toChar) = (ds, []) := by
    have := run_append ds []
    simpa [run] using this
  rw [readFixed, List.take_left' hlength, List.drop_left' hlength, hrun]
  exact if_pos rfl

theorem readFixed_zeroPadded {width n : Nat} (hwidth : 0 < width) (h : n < 10 ^ width)
    (rest : List Char) :
    readFixed width ((zeroPadded width n).toList ++ rest) = some (n, rest) := by
  have hread := readFixed_map_toChar (padded width n) rest
  rwa [length_padded hwidth h, value_padded, ← toList_zeroPadded] at hread

theorem readField_map_toChar {ds : List Digit} (h : ds ≠ []) (rest : List Char) :
    readField ds.length (ds.map toChar ++ rest) = some (value ds, rest) := by
  have hlength : (ds.map toChar).length = ds.length := List.length_map _
  have hempty : ds.isEmpty = false := by simpa using h
  rw [readField, skipBlank_map_toChar h, run_append]
  dsimp only
  rw [List.take_left' rfl, hempty, List.drop_left' hlength]
  rfl

theorem readField_zeroPadded {width n : Nat} (hwidth : 0 < width) (h : n < 10 ^ width)
    (rest : List Char) :
    readField width ((zeroPadded width n).toList ++ rest) = some (n, rest) := by
  have hread := readField_map_toChar (padded_ne_nil width n) rest
  rwa [length_padded hwidth h, value_padded, ← toList_zeroPadded] at hread

theorem lt_of_readFixed {width n : Nat} {cs rest : List Char}
    (h : readFixed width cs = some (n, rest)) : n < 10 ^ width := by
  unfold readFixed at h
  dsimp only at h
  split_ifs at h with hlength
  obtain ⟨rfl, -⟩ := Prod.mk.inj (Option.some.inj h)
  have hlt := value_lt (run (cs.take width)).1
  rwa [hlength] at hlt

/-! ### Years -/

theorem readYear_signed {ds : List Digit} (h : ds ≠ []) {rest : List Char}
    (hrest : ∀ c ∈ rest.head?, ofChar? c = none) (f : Int → Int) :
    readYear.signed (ds.map toChar ++ rest) f = some (f (value ds), rest) := by
  obtain ⟨d, ds, rfl⟩ := List.exists_cons_of_ne_nil h
  have hrun : run ((d :: ds).map toChar ++ rest) = (d :: ds, rest) := run_eq_iff.2 ⟨rfl, hrest⟩
  rw [readYear.signed, hrun]

theorem toChar_ne_sign (d : Digit) : d.toChar ≠ '+' ∧ d.toChar ≠ '-' := by
  revert d; decide

theorem readYear_unsigned {ds : List Digit} (h : ds ≠ []) (rest : List Char) :
    readYear (ds.map toChar ++ rest) =
      (readField 4 (ds.map toChar ++ rest)).map fun (n, rest) => ((n : Int), rest) := by
  obtain ⟨d, ds, rfl⟩ := List.exists_cons_of_ne_nil h
  rw [readYear, skipBlank_map_toChar h]
  split
  · next hplus => exact absurd (List.cons.inj hplus).1 (toChar_ne_sign d).1
  · next hminus => exact absurd (List.cons.inj hminus).1 (toChar_ne_sign d).2
  · rfl

/-- A year that is written is read back, with its sign. -/
theorem readYear_yearText (year : Int) {rest : List Char}
    (hrest : ∀ c ∈ rest.head?, ofChar? c = none) :
    readYear ((Date.yearText year).toList ++ rest) = some (year, rest) := by
  have hne := padded_ne_nil 4 year.natAbs
  have hsigned (f : Int → Int) := readYear_signed hne hrest f
  rw [value_padded] at hsigned
  rw [Date.yearText, String.toList_append, toList_zeroPadded, List.append_assoc]
  split_ifs with hnegative hlarge
  · have hyear : -(year.natAbs : Int) = year := by omega
    exact (hsigned fun n => -n).trans (by rw [hyear])
  · have hyear : (year.natAbs : Int) = year := by omega
    exact (hsigned fun n => n).trans (by rw [hyear])
  · have hyear : (year.natAbs : Int) = year := by omega
    have hlt : year.natAbs < 10 ^ 4 := by omega
    have hfield := readField_zeroPadded (by decide) hlt rest
    rw [toList_zeroPadded] at hfield
    refine (readYear_unsigned hne rest).trans ?_
    rw [hfield, Option.map_some]
    dsimp only
    rw [hyear]

/-! ### Fractions -/

/-- The digits of a fraction, cut to six or filled up to six, are its microseconds. -/
theorem value_take_six (ds : List Digit) :
    value ((ds ++ List.replicate 6 zero).take 6) = value ds * 10 ^ 6 / 10 ^ ds.length := by
  have hsplit := value_append ((ds ++ List.replicate 6 zero).take 6)
    ((ds ++ List.replicate 6 zero).drop 6)
  have hwhole := value_append ds (List.replicate 6 zero)
  have hlt := value_lt ((ds ++ List.replicate 6 zero).drop 6)
  have hlength : ((ds ++ List.replicate 6 zero).drop 6).length = ds.length := by simp
  rw [List.take_append_drop, hwhole, value_replicate_zero, Nat.add_zero, List.length_replicate,
    hlength] at hsplit
  rw [hlength] at hlt
  rw [hsplit, Nat.mul_comm, Nat.mul_add_div (Nat.pow_pos (by decide)), Nat.div_eq_of_lt hlt,
    Nat.add_zero]

theorem readMicros_map_toChar {ds : List Digit} (h : ds ≠ []) {rest : List Char}
    (hrest : ∀ c ∈ rest.head?, ofChar? c = none) :
    readMicros ('.' :: (ds.map toChar ++ rest)) =
      some (value ds * 10 ^ 6 / 10 ^ ds.length, rest) := by
  obtain ⟨d, ds, rfl⟩ := List.exists_cons_of_ne_nil h
  have hrun : run ((d :: ds).map toChar ++ rest) = (d :: ds, rest) := run_eq_iff.2 ⟨rfl, hrest⟩
  rw [readMicros, hrun, ← value_take_six]

theorem lt_of_readMicros {n : Nat} {cs rest : List Char} (h : readMicros cs = some (n, rest)) :
    n < 10 ^ 6 := by
  unfold readMicros at h
  split at h
  · split at h
    · cases h
    · next ds _ _ _ =>
      obtain ⟨rfl, -⟩ := Prod.mk.inj (Option.some.inj h)
      have hlt := value_lt ((ds ++ List.replicate 6 zero).take 6)
      have hlength : ((ds ++ List.replicate 6 zero).take 6).length = 6 := by simp
      rwa [hlength] at hlt
  · obtain ⟨rfl, -⟩ := Prod.mk.inj (Option.some.inj h)
    decide

end DocFilter
