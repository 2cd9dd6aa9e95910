/-!
# Decimal digits

Digits as numbers below ten, runs of them at the start of a text, and the number that a run
denotes. Only the ASCII digits count.

## Main definitions

* `Digit.ofChar?`, `Digit.toChar`: a digit and its character.
* `Digit.value`: the number written by a list of digits, most significant first.
* `Digit.ofNat`: the digits of a number, without leading zeros.
* `Digit.run`: the longest run of digits at the start of a text, and the text after it.
-/

namespace DocFilter

/-- A decimal digit. -/
abbrev Digit := Fin 10

namespace Digit

/-- The digit zero. -/
def zero : Digit := ⟨0, by decide⟩

/-- The digit that a character of ASCII is. -/
def ofChar? (c : Char) : Option Digit :=
  if h : c.toNat - 48 < 10 ∧ 48 ≤ c.toNat then some ⟨c.toNat - 48, h.1⟩ else none

/-- The character of a digit. -/
def toChar (d : Digit) : Char :=
  Nat.digitChar d

@[simp] theorem ofChar?_toChar (d : Digit) : ofChar? d.toChar = some d := by
  revert d; decide

/-- The number written by some digits, most significant first. -/
def value (ds : List Digit) : Nat :=
  ds.foldl (fun (n : Nat) (d : Digit) => 10 * n + d.val) 0

/-- The digits of a number, most significant first; zero has one digit. -/
def ofNat (n : Nat) : List Digit :=
  (Nat.toDigits 10 n).filterMap ofChar?

/-- Digits as a text, leading zeros included. -/
def text (ds : List Digit) : String :=
  String.ofList (ds.map toChar)

/-- The longest run of digits at the start of a text, and the text after it. -/
def run (cs : List Char) : List Digit × List Char :=
  ((cs.takeWhile fun c => (ofChar? c).isSome).filterMap ofChar?,
    cs.dropWhile fun c => (ofChar? c).isSome)

/-! ### The digits of a number -/

theorem toChar_of_ofChar? {c : Char} {d : Digit} (h : ofChar? c = some d) : d.toChar = c := by
  unfold ofChar? at h
  split at h
  · next hc =>
    obtain rfl := Option.some.inj h
    rw [← Char.toNat_inj, toChar, Nat.toNat_digitChar_of_lt_ten hc.1]
    exact Nat.add_sub_of_le hc.2
  · cases h

theorem isSome_ofChar? {c : Char} (h : c.isDigit) : (ofChar? c).isSome := by
  have hc : 48 ≤ c.toNat ∧ c.toNat ≤ 57 := by
    simpa [Char.isDigit, UInt32.le_iff_toNat_le] using h
  have hdigit : c.toNat - 48 < 10 ∧ 48 ≤ c.toNat := by omega
  simp [ofChar?, hdigit]

/-- Writing the digits that were read from a text of digits gives the text back. -/
theorem map_toChar_filterMap : {cs : List Char} → (∀ c ∈ cs, (ofChar? c).isSome) →
    (cs.filterMap ofChar?).map toChar = cs
  | [], _ => rfl
  | c :: cs, h => by
      obtain ⟨d, hd⟩ := Option.isSome_iff_exists.1 (h c List.mem_cons_self)
      have hcs := map_toChar_filterMap fun c hc => h c (List.mem_cons_of_mem _ hc)
      rw [List.filterMap_cons_some hd, List.map_cons, hcs, toChar_of_ofChar? hd]

theorem map_toChar_ofNat (n : Nat) : (ofNat n).map toChar = Nat.toDigits 10 n :=
  map_toChar_filterMap fun _ hc =>
    isSome_ofChar? (Nat.isDigit_of_mem_toDigits (by decide) (by decide) hc)

theorem ofNat_ne_nil (n : Nat) : ofNat n ≠ [] := by
  intro h
  have hdigits := map_toChar_ofNat n
  rw [h, List.map_nil] at hdigits
  exact Nat.toDigits_ne_nil hdigits.symm

theorem value_eq_ofDigitChars (ds : List Digit) :
    value ds = Nat.ofDigitChars 10 (ds.map toChar) 0 := by
  have hvalue (d : Digit) : d.toChar.toNat - '0'.toNat = d.val := by revert d; decide
  simp only [value, Nat.ofDigitChars_eq_foldl, List.foldl_map, hvalue]

/-- The digits of a number denote it. -/
theorem value_ofNat (n : Nat) : value (ofNat n) = n := by
  rw [value_eq_ofDigitChars, map_toChar_ofNat, Nat.ofDigitChars_ten_toDigits]

end Digit

end DocFilter
