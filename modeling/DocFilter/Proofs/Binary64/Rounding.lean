import DocFilter.Binary64.Nearest
import Mathlib.Algebra.Order.Field.Power
import Mathlib.Data.Rat.Cast.Order
import Mathlib.Tactic.FieldSimp
import Mathlib.Tactic.GCongr
import Mathlib.Tactic.Linarith
import Mathlib.Tactic.Ring

/-!
# Numbers that rounding keeps

A decimal number that is rounded to double precision can be lost in two ways: it can be so small
that it becomes zero, and so large that it becomes infinite. Both limits are midpoints, and at both
the even neighbour is the one that loses the number.

## Main definitions

* `Binary64.Covers`: the rational numbers between the two limits.

## Main results

* `le_roundQuotient_iff`: how far a quotient is rounded up.
* `floorLog2_spec`: the power of two at or below a quotient.
* `Binary64.isNonzero_ofQuotient_iff`, `Binary64.isNonzero_ofDecimal_iff`: a number is rounded to a
  finite number other than zero exactly if it lies between the limits.
-/

namespace DocFilter

/-! ### Rounded quotients -/

/-- **A rounded quotient reaches `k`** from the midpoint below `k` on, and at this midpoint if `k`
is even. -/
theorem le_roundQuotient_iff {num den k : Nat} (hden : 0 < den) (hk : 0 < k) :
    k ≤ roundQuotient num den ↔
      2 * k * den < 2 * num + den ∨ 2 * k * den = 2 * num + den ∧ k % 2 = 0 := by
  have hdivision : num = num / den * den + num % den := (Nat.div_add_mod' num den).symm
  have hremainder : num % den < den := Nat.mod_lt num hden
  unfold roundQuotient
  dsimp only
  generalize num / den = q at *
  generalize num % den = r at *
  subst hdivision
  obtain hlt | rfl | hge : q + 1 < k ∨ k = q + 1 ∨ k ≤ q := by omega
  · have hfar : (q + 2) * den ≤ k * den := Nat.mul_le_mul_right den (by omega)
    rw [Nat.add_mul] at hfar
    refine iff_of_false (by split_ifs <;> omega) ?_
    rw [Nat.mul_assoc]
    omega
  · rw [Nat.mul_assoc, Nat.add_mul]
    split_ifs <;> omega
  · have hnear : k * den ≤ q * den := Nat.mul_le_mul_right den hge
    refine iff_of_true (by split_ifs <;> omega) (.inl ?_)
    rw [Nat.mul_assoc]
    omega

/-! ### Powers of integers -/

theorem natCast_powPos {base : Nat} (hbase : 0 < base) (e : Int) :
    (powPos base e : ℚ) = (base : ℚ) ^ e * powPos base (-e) := by
  have hcast : (base : ℚ) ≠ 0 := Nat.cast_ne_zero.2 hbase.ne'
  obtain ⟨n, rfl | rfl⟩ := e.eq_nat_or_neg
  · simp [powPos]
  · simp [powPos, hcast]

theorem powPos_pos {base : Nat} (hbase : 0 < base) (e : Int) : 0 < powPos base e :=
  Nat.pow_pos hbase

theorem two_zpow_pos (e : Int) : (0 : ℚ) < 2 ^ e :=
  zpow_pos two_pos e

/-- A quotient is compared with a power of two by integers. -/
theorem mul_powPos_lt_iff {num den : Nat} (hden : 0 < den) (e : Int) :
    num * powPos 2 (-e) < den * powPos 2 e ↔ (num : ℚ) / den < 2 ^ e := by
  have hpos : (0 : ℚ) < powPos 2 (-e) := Nat.cast_pos.2 (powPos_pos two_pos _)
  rw [← Nat.cast_lt (α := ℚ), Nat.cast_mul, Nat.cast_mul, natCast_powPos two_pos e, ← mul_assoc,
    mul_lt_mul_iff_left₀ hpos, div_lt_iff₀ (Nat.cast_pos.2 hden), mul_comm (den : ℚ)]
  rfl

/-- **A quotient in units of a power of two reaches `k`** from the midpoint below `k` on, and at
this midpoint if `k` is even. -/
theorem le_roundQuotient_powPos_iff (num : Nat) {den k : Nat} (hden : 0 < den) (hk : 0 < k)
    (e : Int) :
    k ≤ roundQuotient (num * powPos 2 (-e)) (den * powPos 2 e) ↔
      (2 * k - 1) * 2 ^ (e - 1) < (num : ℚ) / den ∨
        (2 * k - 1) * 2 ^ (e - 1) = (num : ℚ) / den ∧ k % 2 = 0 := by
  have hpos : (0 : ℚ) < powPos 2 (-e) := Nat.cast_pos.2 (powPos_pos two_pos _)
  have hcast : (0 : ℚ) < den := Nat.cast_pos.2 hden
  have hhalf : (2 : ℚ) ^ e = 2 * 2 ^ (e - 1) := by
    rw [zpow_sub_one₀ two_ne_zero]
    ring
  -- both comparisons are about the sign of one difference, up to a positive factor
  have hdifference :
      ((2 * (num * powPos 2 (-e)) + den * powPos 2 e : Nat) : ℚ) -
          (2 * k * (den * powPos 2 e) : Nat) =
        2 * den * powPos 2 (-e) * (num / den - (2 * k - 1) * 2 ^ (e - 1)) := by
    push_cast
    rw [natCast_powPos two_pos e, Nat.cast_ofNat, hhalf]
    field_simp
    ring
  have hfactor : (0 : ℚ) < 2 * den * powPos 2 (-e) := by positivity
  rw [le_roundQuotient_iff (Nat.mul_pos hden (powPos_pos two_pos e)) hk, ← Nat.cast_lt (α := ℚ),
    ← Nat.cast_inj (R := ℚ), ← sub_pos, hdifference, mul_pos_iff_of_pos_left hfactor, sub_pos,
    eq_comm, ← sub_eq_zero, hdifference, mul_eq_zero, or_iff_right hfactor.ne', sub_eq_zero,
    eq_comm]

/-! ### Powers of two below a quotient -/

/-- A quotient lies between the powers of two that belong to the lengths of its parts. -/
theorem two_zpow_log2_sub_lt {num den : Nat} (hnum : num ≠ 0) (hden : den ≠ 0) :
    (2 : ℚ) ^ ((num.log2 : Int) - den.log2 - 1) < num / den ∧
      (num : ℚ) / den < 2 ^ ((num.log2 : Int) - den.log2 + 1) := by
  have hlower : (2 : ℚ) ^ (num.log2 : Int) ≤ num := by
    exact_mod_cast Nat.log2_self_le hnum
  have hupper : (num : ℚ) < 2 ^ ((num.log2 : Int) + 1) := by
    exact_mod_cast Nat.lt_log2_self
  have hlower' : (2 : ℚ) ^ (den.log2 : Int) ≤ den := by
    exact_mod_cast Nat.log2_self_le hden
  have hupper' : (den : ℚ) < 2 ^ ((den.log2 : Int) + 1) := by
    exact_mod_cast Nat.lt_log2_self
  have hpos : (0 : ℚ) < den := Nat.cast_pos.2 (Nat.pos_of_ne_zero hden)
  constructor
  · rw [lt_div_iff₀ hpos]
    calc (2 : ℚ) ^ ((num.log2 : Int) - den.log2 - 1) * den
        < 2 ^ ((num.log2 : Int) - den.log2 - 1) * 2 ^ ((den.log2 : Int) + 1) :=
          mul_lt_mul_of_pos_left hupper' (two_zpow_pos _)
      _ = 2 ^ (num.log2 : Int) := by
          rw [← zpow_add₀ two_ne_zero]
          congr 1
          omega
      _ ≤ num := hlower
  · rw [div_lt_iff₀ hpos]
    calc (num : ℚ) < 2 ^ ((num.log2 : Int) + 1) := hupper
      _ = 2 ^ ((num.log2 : Int) - den.log2 + 1) * 2 ^ (den.log2 : Int) := by
          rw [← zpow_add₀ two_ne_zero]
          congr 1
          omega
      _ ≤ 2 ^ ((num.log2 : Int) - den.log2 + 1) * den :=
          mul_le_mul_of_nonneg_left hlower' (two_zpow_pos _).le

/-- **The power of two at or below a quotient.** -/
theorem floorLog2_spec {num den : Nat} (hnum : 0 < num) (hden : 0 < den) :
    (2 : ℚ) ^ floorLog2 num den ≤ num / den ∧ (num : ℚ) / den < 2 ^ (floorLog2 num den + 1) := by
  obtain ⟨hlower, hupper⟩ := two_zpow_log2_sub_lt hnum.ne' hden.ne'
  unfold floorLog2
  dsimp only
  split_ifs with h
  · rw [mul_powPos_lt_iff hden] at h
    rw [sub_add_cancel]
    exact ⟨hlower.le, h⟩
  · rw [mul_powPos_lt_iff hden, not_lt] at h
    exact ⟨h, hupper⟩

/-! ### Rounding to double precision -/

namespace Binary64

/-- The rational numbers whose magnitude lies strictly between half the smallest positive number and
the midpoint of the largest number and the next power of two. -/
def Covers (x : ℚ) : Prop :=
  2 ^ (-1075 : ℤ) < |x| ∧ |x| < (2 ^ 54 - 1) * 2 ^ (970 : ℤ)

theorem covers_of_nonneg {x : ℚ} (h : 0 ≤ x) :
    Covers x ↔ 2 ^ (-1075 : ℤ) < x ∧ x < (2 ^ 54 - 1) * 2 ^ (970 : ℤ) := by
  rw [Covers, abs_of_nonneg h]

theorem covers_neg {x : ℚ} : Covers (-x) ↔ Covers x := by
  rw [Covers, Covers, abs_neg]

/-- Zero is rounded to zero. -/
theorem not_covers_zero : ¬Covers 0 := by
  rw [covers_of_nonneg le_rfl]
  exact fun h => h.1.not_gt (two_zpow_pos _)

theorem limit_lt : (2 ^ 54 - 1) * 2 ^ (970 : ℤ) < (2 : ℚ) ^ (1024 : ℤ) := by
  rw [show (1024 : ℤ) = (54 : Nat) + 970 from rfl, zpow_add₀ two_ne_zero, zpow_natCast]
  exact mul_lt_mul_of_pos_right (sub_one_lt _) (two_zpow_pos _)

/-- The exponent of the unit to which a quotient is rounded. -/
def unit (num den : Nat) : Int :=
  max (floorLog2 num den - 52) minExponent

/-- The quotient in this unit. -/
def units (num den : Nat) : Nat :=
  roundQuotient (num * powPos 2 (-unit num den)) (den * powPos 2 (unit num den))

/-- The exponent grows by one if the units are rounded up to the next power of two. -/
theorem ofQuotient_eq_ite (negative : Bool) (num den : Nat) :
    ofQuotient negative num den =
      if units num den = 2 * minMantissa then
        if maxExponent < unit num den + 1 then infinite negative
        else finite negative minMantissa (unit num den + 1)
      else if maxExponent < unit num den then infinite negative
      else finite negative (units num den) (unit num den) := by
  by_cases htop : units num den = 2 * minMantissa
  · rw [if_pos htop]
    unfold units unit at htop
    simp only [ofQuotient, htop, if_true]
    rfl
  · rw [if_neg htop]
    unfold units unit at htop
    simp only [ofQuotient, htop, if_false]
    rfl

/-- **When a rounded quotient is neither zero nor infinite**: it has units, and they do not need a
larger exponent than there is. -/
theorem isNonzero_ofQuotient (negative : Bool) (num den : Nat) :
    (ofQuotient negative num den).isNonzero ↔
      0 < units num den ∧ (unit num den ≤ 970 ∨ unit num den = 971 ∧ units num den ≠ 2 ^ 53) := by
  have hcarry : 2 * minMantissa = 2 ^ 53 := rfl
  have hmax : maxExponent = 971 := rfl
  rw [ofQuotient_eq_ite, hcarry, hmax]
  by_cases htop : units num den = 2 ^ 53
  · rw [if_pos htop]
    by_cases hlarge : 971 < unit num den + 1
    · rw [if_pos hlarge]
      exact iff_of_false nofun (by omega)
    · rw [if_neg hlarge]
      exact iff_of_true rfl (by omega)
  · rw [if_neg htop]
    by_cases hlarge : 971 < unit num den
    · rw [if_pos hlarge]
      exact iff_of_false nofun (by omega)
    · rw [if_neg hlarge, isNonzero, bne_iff_ne]
      omega

section Limits

variable {num den : Nat} (hnum : 0 < num) (hden : 0 < den)

include hnum hden

/-- A quotient has less than `2 ^ 53` units. -/
theorem lt_two_zpow_unit : (num : ℚ) / den < 2 ^ (unit num den + 53) := by
  refine (floorLog2_spec hnum hden).2.trans_le (zpow_le_zpow_right₀ one_le_two ?_)
  unfold unit
  omega

/-- Above the smallest exponent, it has `2 ^ 52` units at least. -/
theorem two_zpow_unit_le (h : minExponent < unit num den) :
    2 ^ (unit num den + 52) ≤ (num : ℚ) / den := by
  refine le_trans (zpow_le_zpow_right₀ one_le_two ?_) (floorLog2_spec hnum hden).1
  unfold unit at *
  omega

omit hnum in
theorem units_pos_iff : 0 < units num den ↔ 2 ^ (unit num den - 1) < (num : ℚ) / den := by
  have hiff := le_roundQuotient_powPos_iff num hden one_pos (unit num den)
  norm_num at hiff
  exact hiff

omit hnum in
theorem le_units_iff :
    2 ^ 53 ≤ units num den ↔ (2 ^ 54 - 1) * 2 ^ (unit num den - 1) ≤ (num : ℚ) / den := by
  have hiff := le_roundQuotient_powPos_iff num (k := 2 ^ 53) hden (by decide) (unit num den)
  have hcast : (2 * ((2 ^ 53 : Nat) : ℚ) - 1) = 2 ^ 54 - 1 := by norm_num
  rw [hcast, and_iff_left (by decide), ← le_iff_lt_or_eq] at hiff
  exact hiff

theorem units_le : units num den ≤ 2 ^ 53 := by
  by_contra hgt
  have hiff := le_roundQuotient_powPos_iff num (k := 2 ^ 53 + 1) hden (by decide)
    (unit num den)
  have hlt := lt_two_zpow_unit hnum hden
  have hsplit : (2 : ℚ) ^ (unit num den + 53) = 2 ^ 54 * 2 ^ (unit num den - 1) := by
    rw [← zpow_natCast, ← zpow_add₀ two_ne_zero]
    congr 1
    push_cast
    omega
  rw [hsplit] at hlt
  have hpos := two_zpow_pos (unit num den - 1)
  push_cast at hiff
  rcases hiff.1 (by unfold units at hgt; omega) with h | ⟨h, -⟩
  · nlinarith
  · nlinarith

/-- The lower limit is the midpoint of zero and the smallest unit. -/
theorem units_pos_iff_lt : 0 < units num den ↔ 2 ^ (-1075 : ℤ) < (num : ℚ) / den := by
  rw [units_pos_iff hden]
  have hleast : minExponent ≤ unit num den := le_max_right _ _
  rcases hleast.eq_or_lt with heq | hlt
  · rw [← heq, minExponent]
    norm_num
  · have hlarge := two_zpow_unit_le hnum hden hlt
    have hminimum : minExponent = -1074 := rfl
    refine iff_of_true (lt_of_lt_of_le ?_ hlarge) (lt_of_lt_of_le ?_ hlarge)
    · exact zpow_lt_zpow_right₀ one_lt_two (by omega)
    · exact zpow_lt_zpow_right₀ one_lt_two (by omega)

/-- The upper limit is the midpoint of the largest mantissa and the next, at the largest
exponent. -/
theorem unit_le_iff_lt :
    (unit num den ≤ 970 ∨ unit num den = 971 ∧ units num den ≠ 2 ^ 53) ↔
      (num : ℚ) / den < (2 ^ 54 - 1) * 2 ^ (970 : ℤ) := by
  obtain hsmall | hlast | hlarge :
      unit num den ≤ 970 ∨ unit num den = 971 ∨ 971 < unit num den := by omega
  · refine iff_of_true (.inl hsmall) ((lt_two_zpow_unit hnum hden).trans_le ?_)
    calc (2 : ℚ) ^ (unit num den + 53) ≤ 2 ^ ((53 : Nat) + 970 : ℤ) :=
          zpow_le_zpow_right₀ one_le_two (by omega)
      _ = 2 ^ 53 * 2 ^ (970 : ℤ) := by rw [zpow_add₀ two_ne_zero, zpow_natCast]
      _ ≤ (2 ^ 54 - 1) * 2 ^ (970 : ℤ) :=
          mul_le_mul_of_nonneg_right (by norm_num) (two_zpow_pos _).le
  · have hiff : 2 ^ 53 ≤ units num den ↔ _ := le_units_iff hden
    have hle := units_le hnum hden
    rw [hlast] at hiff
    rw [← not_le, ← show (971 - 1 : ℤ) = 970 from rfl, ← hiff]
    omega
  · refine iff_of_false (by omega) (not_lt.2 (limit_lt.le.trans ?_))
    exact le_trans (zpow_le_zpow_right₀ one_le_two (by omega))
      (two_zpow_unit_le hnum hden (lt_trans (by decide) hlarge))

/-- **A quotient is rounded to a finite number other than zero exactly between the limits.** -/
theorem isNonzero_ofQuotient_iff (negative : Bool) :
    (ofQuotient negative num den).isNonzero ↔ Covers (num / den : ℚ) := by
  have hnonneg : (0 : ℚ) ≤ num / den := div_nonneg (Nat.cast_nonneg _) (Nat.cast_nonneg _)
  rw [isNonzero_ofQuotient, units_pos_iff_lt hnum hden, unit_le_iff_lt hnum hden,
    covers_of_nonneg hnonneg]

end Limits

/-! ### Decimal numbers -/

theorem two_zpow_three_mul (e : Int) : (2 : ℚ) ^ (3 * e) = 8 ^ e := by
  rw [zpow_mul]
  norm_num

/-- A decimal number of many digits or a large scale is beyond the upper limit. -/
theorem not_covers_of_large {significand : Nat} {scale : Int} (hpos : significand ≠ 0)
    (hscale : 0 ≤ scale) (h : 1024 ≤ (significand.log2 : Int) + 3 * scale) :
    ¬Covers (significand * 10 ^ scale : ℚ) := by
  have hsignificand : (2 : ℚ) ^ (significand.log2 : Int) ≤ significand := by
    exact_mod_cast Nat.log2_self_le hpos
  have hpower : (8 : ℚ) ^ scale ≤ 10 ^ scale :=
    zpow_le_zpow_left₀ hscale (by norm_num) (by norm_num)
  have hlarge : (2 : ℚ) ^ (1024 : ℤ) ≤ significand * 10 ^ scale :=
    calc (2 : ℚ) ^ (1024 : ℤ) ≤ 2 ^ ((significand.log2 : Int) + 3 * scale) :=
          zpow_le_zpow_right₀ one_le_two h
      _ = 2 ^ (significand.log2 : Int) * 8 ^ scale := by
          rw [zpow_add₀ two_ne_zero, two_zpow_three_mul]
      _ ≤ significand * 10 ^ scale := by gcongr
  rw [covers_of_nonneg (by positivity)]
  intro hcovers
  exact absurd (hcovers.2.trans limit_lt) hlarge.not_gt

/-- A decimal number of few digits and a small scale is below the lower limit. -/
theorem not_covers_of_small {significand : Nat} {scale : Int} (hscale : scale < 0)
    (h : (significand.log2 : Int) + 1 + 3 * scale ≤ -1075) :
    ¬Covers (significand * 10 ^ scale : ℚ) := by
  have hsignificand : (significand : ℚ) < 2 ^ ((significand.log2 : Int) + 1) := by
    exact_mod_cast Nat.lt_log2_self
  have hpower : (10 : ℚ) ^ scale ≤ 8 ^ scale := by
    have hopposite : (8 : ℚ) ^ (-scale) ≤ 10 ^ (-scale) :=
      zpow_le_zpow_left₀ (by omega) (by norm_num) (by norm_num)
    rw [← inv_zpow', ← inv_zpow', inv_zpow, inv_zpow] at hopposite
    exact (inv_le_inv₀ (by positivity) (by positivity)).1 hopposite
  have hsmall : (significand : ℚ) * 10 ^ scale ≤ 2 ^ (-1075 : ℤ) :=
    calc (significand : ℚ) * 10 ^ scale ≤ 2 ^ ((significand.log2 : Int) + 1) * 8 ^ scale := by
          gcongr
      _ = 2 ^ ((significand.log2 : Int) + 1 + 3 * scale) := by
          rw [zpow_add₀ two_ne_zero _ (3 * scale), two_zpow_three_mul]
      _ ≤ 2 ^ (-1075 : ℤ) := zpow_le_zpow_right₀ one_le_two h
  rw [covers_of_nonneg (by positivity)]
  exact fun hcovers => absurd hcovers.1 hsmall.not_gt

/-- **A decimal number is rounded to a finite number other than zero exactly between the
limits.** -/
theorem isNonzero_ofDecimal_iff (negative : Bool) (significand : Nat) (scale : Int) :
    (ofDecimal negative significand scale).isNonzero ↔ Covers (significand * 10 ^ scale : ℚ) := by
  unfold ofDecimal
  dsimp only
  split_ifs with hzero hlarge hsmall
  · refine iff_of_false nofun ?_
    rw [hzero, Nat.cast_zero, zero_mul]
    exact not_covers_zero
  · exact iff_of_false nofun (not_covers_of_large hzero hlarge.1 hlarge.2)
  · exact iff_of_false nofun (not_covers_of_small hsmall.1 hsmall.2)
  · have hnum : 0 < significand * powPos 10 scale :=
      Nat.mul_pos (Nat.pos_of_ne_zero hzero) (powPos_pos (by decide) scale)
    have hden : 0 < powPos 10 (-scale) := powPos_pos (by decide) _
    have hvalue : ((significand * powPos 10 scale : Nat) : ℚ) / powPos 10 (-scale) =
        significand * 10 ^ scale := by
      rw [Nat.cast_mul, natCast_powPos (by decide) scale, ← mul_assoc,
        mul_div_cancel_right₀ _ (Nat.cast_pos.2 hden).ne']
      rfl
    rw [isNonzero_ofQuotient_iff hnum hden, hvalue]

end Binary64

end DocFilter
