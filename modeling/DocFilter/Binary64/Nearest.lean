import DocFilter.Json.Numeral

/-!
# Nearest binary numbers

Double precision numbers as exact values `mantissa * 2 ^ exponent`, and the one that a numeral is
rounded to: the nearest, and of two equally near the one with an even mantissa. All arithmetic is
exact.

## Main definitions

* `Binary64`: a finite number, an infinity, or not a number.
* `Numeral.toBinary64`: the number nearest to a numeral.
-/

namespace DocFilter

/-- A double precision number. The mantissa of a finite number has 53 bits at most. -/
inductive Binary64 where
  | finite (negative : Bool) (mantissa : Nat) (exponent : Int)
  | infinite (negative : Bool)
  | nan
deriving DecidableEq, Repr

namespace Binary64

/-- The least mantissa of 53 bits, the size of all but the smallest numbers. -/
def minMantissa : Nat := 0x10000000000000

/-- The exponent of the smallest positive number. -/
def minExponent : Int := -1074

/-- The largest exponent of a number with a mantissa of 53 bits. -/
def maxExponent : Int := 971

/-- A number that is finite and not zero. -/
def isNonzero : Binary64 → Bool
  | finite _ mantissa _ => mantissa != 0
  | _ => false

end Binary64

/-- `base ^ e` for `e ≥ 0`, and one otherwise. -/
def powPos (base : Nat) (e : Int) : Nat :=
  Nat.pow base e.toNat

/-- The quotient rounded to the nearest integer, a half to the even neighbour. -/
def roundQuotient (num den : Nat) : Nat :=
  let q := num / den
  let r := num % den
  if 2 * r < den then q else if den < 2 * r then q + 1 else q + q % 2

/-- The exponent of the largest power of two that is at most `num / den`. -/
def floorLog2 (num den : Nat) : Int :=
  let l := (num.log2 : Int) - den.log2
  if num * powPos 2 (-l) < den * powPos 2 l then l - 1 else l

namespace Binary64

/-- The number nearest to the positive quotient `num / den`. -/
def ofQuotient (negative : Bool) (num den : Nat) : Binary64 :=
  let e := max (floorLog2 num den - 52) minExponent
  let m := roundQuotient (num * powPos 2 (-e)) (den * powPos 2 e)
  let (m, e) := if m = 2 * minMantissa then (minMantissa, e + 1) else (m, e)
  if maxExponent < e then infinite negative else finite negative m e

/-- The number nearest to `significand * 10 ^ scale`. Since `10 > 2 ^ 3`, a scale far from zero is
settled without the power: the value is beyond the largest number, or below half the smallest. -/
def ofDecimal (negative : Bool) (significand : Nat) (scale : Int) : Binary64 :=
  let bits : Int := significand.log2
  if significand = 0 then finite negative 0 minExponent
  else if 0 ≤ scale ∧ 1024 ≤ bits + 3 * scale then infinite negative
  else if scale < 0 ∧ bits + 1 + 3 * scale ≤ -1075 then finite negative 0 minExponent
  else ofQuotient negative (significand * powPos 10 scale) (powPos 10 (-scale))

end Binary64

/-- The double precision number nearest to a numeral. -/
def Numeral.toBinary64 (n : Numeral) : Binary64 :=
  .ofDecimal n.negative n.significand n.scale

end DocFilter
