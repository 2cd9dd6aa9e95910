import DocFilter.Proofs.Binary64.Rounding
import DocFilter.Proofs.Calendar.Fields
import DocFilter.Proofs.Json.Values

/-!
# Literals of numbers

A numeral can be spelled in a few ways: the mark of its exponent may be a capital letter, and the
plus sign of the exponent may be left out. Reading takes exactly the literals of a numeral, and
keeps what they denote: a rational number without any rounding. Rounding to double precision is
another step, which loses numbers that are too small or too large.

## Main definitions

* `Numeral.value`: the rational number that a numeral denotes.

## Main results

* `Numeral.ofText?_eq_some_iff`: a text is read as a numeral exactly if it is a literal of it.
* `Json.ofText?_of_spells`: a literal is the document of its number.
* `Numeral.isNonzero_toBinary64_iff`: which numerals are rounded to a finite number but zero.
-/

namespace DocFilter

/-! ### Digits without leading zeros -/

namespace Digit

/-- Digits behind a positive number extend its digits. -/
theorem toDigits_foldl {n : Nat} (hn : 0 < n) (ds : List Digit) :
    Nat.toDigits 10 (ds.foldl (fun (n : Nat) (d : Digit) => 10 * n + d.val) n) =
      Nat.toDigits 10 n ++ ds.map toChar := by
  induction ds generalizing n with
  | nil => simp
  | cons d ds ih =>
    have hdigit : Nat.toDigits 10 d.val = [d.toChar] := Nat.toDigits_of_lt_base d.isLt
    have happend := Nat.toDigits_append_toDigits (b := 10) (by decide) hn d.isLt
    rw [hdigit] at happend
    rw [List.foldl_cons, ih (by omega), ← happend, List.append_assoc, List.map_cons,
      List.singleton_append]

/-- Digits that do not start with a zero are the digits of their value. -/
theorem toList_repr_value {d : Digit} (hd : d ≠ 0) (ds : List Digit) :
    (Nat.repr (value (d :: ds))).toList = (d :: ds).map toChar := by
  have hpos : 0 < 10 * 0 + d.val := by
    rw [Nat.mul_zero, Nat.zero_add]
    exact Fin.pos_iff_ne_zero.2 hd
  have hdigit : Nat.toDigits 10 (10 * 0 + d.val) = [d.toChar] := by
    rw [Nat.mul_zero, Nat.zero_add]
    exact Nat.toDigits_of_lt_base d.isLt
  rw [Nat.toList_repr, value, List.foldl_cons, toDigits_foldl hpos, hdigit]
  rfl

end Digit

/-! ### Reading literals -/

namespace Exponent

theorem spellsBody_of_readBody {negative : Bool} {cs rest : List Char} {e : Exponent}
    (h : readBody negative cs = some (e, rest)) :
    e.negative = negative ∧ cs = e.digits.map Digit.toChar ++ rest := by
  unfold readBody at h
  split at h
  · next d ds rest' hrun =>
    obtain ⟨rfl, rfl⟩ := Prod.mk.inj (Option.some.inj h)
    exact ⟨rfl, (Digit.run_eq_iff.1 hrun).1⟩
  · cases h

/-- An exponent that is read is spelled by what it was read from. -/
theorem optionSpells_of_read? {cs rest : List Char} {e : Option Exponent}
    (h : read? cs = some (e, rest)) : ∃ spelled, OptionSpells e spelled ∧ cs = spelled ++ rest := by
  unfold read? at h
  split at h
  · next mark cs =>
    split_ifs at h with hmark
    · obtain ⟨⟨e, rest'⟩, hbody, hpair⟩ := Option.map_eq_some_iff.1 h
      obtain ⟨rfl, rfl⟩ := Prod.mk.inj hpair
      split at hbody
      · obtain ⟨hsign, rfl⟩ := spellsBody_of_readBody hbody
        exact ⟨_, ⟨mark, _, hmark, .inl rfl, rfl⟩, by simp [hsign]⟩
      · obtain ⟨hsign, rfl⟩ := spellsBody_of_readBody hbody
        exact ⟨_, ⟨mark, _, hmark, .inl rfl, rfl⟩, by simp [hsign]⟩
      · obtain ⟨hsign, rfl⟩ := spellsBody_of_readBody hbody
        exact ⟨_, ⟨mark, _, hmark, .inr ⟨hsign, rfl⟩, rfl⟩, rfl⟩
    · obtain ⟨rfl, rfl⟩ := Prod.mk.inj (Option.some.inj h)
      exact ⟨[], rfl, rfl⟩
  · obtain ⟨rfl, rfl⟩ := Prod.mk.inj (Option.some.inj h)
    exact ⟨[], rfl, rfl⟩

end Exponent

namespace Numeral

theorem eq_append_of_readWhole {cs rest : List Char} {n : Nat}
    (h : readWhole cs = some (n, rest)) : cs = (Nat.repr n).toList ++ rest := by
  unfold readWhole at h
  split at h
  · obtain ⟨rfl, rfl⟩ := Prod.mk.inj (Option.some.inj h)
    rfl
  · next hzero =>
    split at h
    · cases h
    · next ds rest' hne hrun =>
      obtain ⟨rfl, rfl⟩ := Prod.mk.inj (Option.some.inj h)
      obtain ⟨rfl, -⟩ := Digit.run_eq_iff.1 hrun
      obtain ⟨d, ds, rfl⟩ := List.exists_cons_of_ne_nil hne
      have hd : d ≠ 0 := by
        rintro rfl
        exact hzero _ rfl
      rw [Digit.toList_repr_value hd]

theorem eq_append_of_readFraction {cs rest : List Char} {fraction : List Digit}
    (h : readFraction cs = some (fraction, rest)) : cs = fractionText fraction ++ rest := by
  unfold readFraction at h
  split at h
  · split at h
    · cases h
    · next ds rest' hne hrun =>
      obtain ⟨rfl, rfl⟩ := Prod.mk.inj (Option.some.inj h)
      obtain ⟨rfl, -⟩ := Digit.run_eq_iff.1 hrun
      obtain ⟨d, ds, rfl⟩ := List.exists_cons_of_ne_nil hne
      rw [fractionText_cons, List.cons_append]
  · obtain ⟨rfl, rfl⟩ := Prod.mk.inj (Option.some.inj h)
    rfl

theorem eq_append_of_readMagnitude {negative : Bool} {cs rest : List Char} {n : Numeral}
    (h : readMagnitude negative cs = some (n, rest)) :
    n.negative = negative ∧ ∃ exponent, Exponent.OptionSpells n.exponent exponent ∧
      cs = (Nat.repr n.whole).toList ++ (fractionText n.fraction ++ exponent) ++ rest := by
  obtain ⟨⟨whole, cs₁⟩, hwhole, h⟩ := Option.bind_eq_some_iff.1 h
  obtain ⟨⟨fraction, cs₂⟩, hfraction, h⟩ := Option.bind_eq_some_iff.1 h
  obtain ⟨⟨exponent, cs₃⟩, hexponent, h⟩ := Option.bind_eq_some_iff.1 h
  obtain ⟨rfl, rfl⟩ := Prod.mk.inj (Option.some.inj h)
  obtain ⟨spelled, hspelled, rfl⟩ := Exponent.optionSpells_of_read? hexponent
  obtain rfl := eq_append_of_readFraction hfraction
  obtain rfl := eq_append_of_readWhole hwhole
  exact ⟨rfl, spelled, hspelled, by simp only [List.append_assoc]⟩

/-- A numeral that is read is spelled by what it was read from. -/
theorem spells_of_read {cs rest : List Char} {n : Numeral} (h : read cs = some (n, rest)) :
    ∃ spelled, n.Spells spelled ∧ cs = spelled ++ rest := by
  unfold read at h
  split at h
  · obtain ⟨hsign, exponent, hexponent, rfl⟩ := eq_append_of_readMagnitude h
    exact ⟨_, ⟨exponent, hexponent, rfl⟩, by simp [hsign]⟩
  · obtain ⟨hsign, exponent, hexponent, rfl⟩ := eq_append_of_readMagnitude h
    exact ⟨_, ⟨exponent, hexponent, rfl⟩, by simp [hsign]⟩

/-- **A text is read as a numeral exactly if it is a literal of it.** -/
theorem ofText?_eq_some_iff {s : String} {n : Numeral} :
    ofText? s = some n ↔ n.Spells s.toList := by
  constructor
  · intro h
    unfold ofText? at h
    split at h
    · next hread =>
      obtain rfl := Option.some.inj h
      obtain ⟨spelled, hspelled, hs⟩ := spells_of_read hread
      rw [hs, List.append_nil]
      exact hspelled
    · cases h
  · intro h
    have hread := h.read_append (show Ends [] from nofun)
    rw [List.append_nil] at hread
    rw [ofText?, hread]

end Numeral

/-- **A literal is the document of its number.** -/
theorem Json.ofText?_of_spells {s : String} {n : Numeral} (h : n.Spells s.toList) :
    Json.ofText? s = some (.number n) := by
  have hread := h.read_append (show Numeral.Ends [] from nofun)
  obtain ⟨c, cs, hcs, hc⟩ := h.exists_head
  rw [List.append_nil, hcs] at hread
  simp [ofText?, ofChars?, whole?, hcs, readValue_numeral hc, hread, skipSpace]

/-! ### Values -/

namespace Numeral

/-- The rational number that a numeral denotes. -/
def value (n : Numeral) : ℚ :=
  (if n.negative then -1 else 1) *
    (n.whole + Digit.value n.fraction / 10 ^ n.fraction.length) *
    10 ^ ((n.exponent.map Exponent.value).getD 0)

/-- The significand and the scale of a numeral give its magnitude. -/
theorem value_eq (n : Numeral) :
    n.value = (if n.negative then -1 else 1) * (n.significand * 10 ^ n.scale) := by
  rw [value, significand, Digit.foldl_value, scale, zpow_sub₀ (by norm_num), zpow_natCast]
  push_cast
  field_simp

/-- **A numeral is rounded to a finite number other than zero exactly if its value lies between the
limits.** -/
theorem isNonzero_toBinary64_iff (n : Numeral) :
    n.toBinary64.isNonzero ↔ Binary64.Covers n.value := by
  rw [toBinary64, Binary64.isNonzero_ofDecimal_iff, value_eq]
  cases n.negative with
  | true => simp [Binary64.covers_neg]
  | false => simp

end Numeral

end DocFilter
