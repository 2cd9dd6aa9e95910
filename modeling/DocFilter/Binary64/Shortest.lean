import DocFilter.Binary64.Nearest
import DocFilter.Json.Basic

/-!
# Shortest decimals

A finite double precision number is written with the fewest digits that are rounded back to it,
and of the decimals of that length with the nearest one.

## Main definitions

* `Binary64.shortest`: digits and decimal exponent of the shortest decimal.
* `Binary64.numeral`: the numeral for a finite number.
* `Json.ofBinary64?`: the document for a number, if it is finite.
-/

namespace DocFilter

/-- How many decimal digits a number has. -/
def decimalLength (n : Nat) : Nat :=
  (Nat.toDigits 10 n).length

/-- Whether `c * 10 ^ s ≤ a * 2 ^ u`. -/
def decimalLe (c : Nat) (s : Int) (a : Nat) (u : Int) : Bool :=
  c * powPos 10 s * powPos 2 (-u) ≤ a * powPos 2 u * powPos 10 (-s)

/-- Whether `c * 10 ^ s < a * 2 ^ u`. -/
def decimalLt (c : Nat) (s : Int) (a : Nat) (u : Int) : Bool :=
  c * powPos 10 s * powPos 2 (-u) < a * powPos 2 u * powPos 10 (-s)

/-- The exponent of the largest power of ten that is at most `num / den`. -/
def floorLog10 (num den : Nat) : Int :=
  if den ≤ num then decimalLength (num / den) - 1
  else
    let k := decimalLength den - decimalLength num
    if den ≤ num * Nat.pow 10 k then -k else -(k + 1)

namespace Binary64

/-- The numbers that are rounded to `mantissa * 2 ^ exponent` lie between two ends, given here in
units of `2 ^ (exponent - 2)`. Below a power of two the spacing is halved. -/
def ends (mantissa : Nat) (exponent : Int) : Nat × Nat :=
  let below := if mantissa = minMantissa ∧ minExponent < exponent then 1 else 2
  (4 * mantissa - below, 4 * mantissa + 2)

/-- The decimal `c * 10 ^ s` of `digits` digits that is rounded to `mantissa * 2 ^ exponent` and
nearest to it, if there is one. Only the two neighbours of the number have to be tried. -/
def decimalOfLength? (mantissa : Nat) (exponent : Int) (digits : Nat) : Option (Nat × Int) :=
  let u := exponent - 2
  let v := 4 * mantissa
  let (low, high) := ends mantissa exponent
  let even := mantissa % 2 = 0
  let top := floorLog10 (v * powPos 2 u) (powPos 2 (-u))
  let s := top - digits + 1
  let c := (v * powPos 2 u * powPos 10 (-s)) / (powPos 2 (-u) * powPos 10 s)
  let lowFits := if even then !decimalLt c s low u else !decimalLe c s low u
  let highFits := if even then decimalLe (c + 1) s high u else decimalLt (c + 1) s high u
  if lowFits && highFits then
    if decimalLt (2 * c + 1) s (2 * v) u then some (c + 1, s)
    else if decimalLe (2 * c + 1) s (2 * v) u then some (c + c % 2, s)
    else some (c, s)
  else if lowFits then some (c, s)
  else if highFits then some (c + 1, s)
  else none

/-- The digits and the exponent of the last digit of the shortest decimal for a positive number.
Seventeen digits always suffice. -/
def shortest (mantissa : Nat) (exponent : Int) : List Digit × Int :=
  match (List.range 17).findSome? fun n => decimalOfLength? mantissa exponent (n + 1) with
  | some (c, s) =>
    let ds := Digit.ofNat c
    let kept := (ds.reverse.dropWhile (· = Digit.zero)).reverse
    (kept, s + (ds.length - kept.length))
  | none => (Digit.ofNat mantissa, exponent)

/-- The exponent of a power of ten, without leading zeros. -/
def exponentOf (e : Int) : Option Exponent :=
  match Digit.ofNat e.natAbs with
  | d :: ds => some ⟨decide (e < 0), d, ds⟩
  | [] => none

/-- Digits with the point behind the first `1 + lead` of them. A decimal has at least one fraction
digit. From `10 ^ -5` up to `10 ^ 16` it is written without exponent. -/
def layOut (negative : Bool) (ds : List Digit) (lead : Int) : Numeral :=
  if 0 ≤ lead ∧ lead ≤ 15 then
    let k := lead.toNat + 1
    let padded := ds ++ List.replicate (k - ds.length) Digit.zero
    let fraction := padded.drop k
    ⟨negative, Digit.value (padded.take k), if fraction.isEmpty then [Digit.zero] else fraction,
      none⟩
  else if -5 ≤ lead ∧ lead < 0 then
    ⟨negative, 0, List.replicate ((-lead).toNat - 1) Digit.zero ++ ds, none⟩
  else
    ⟨negative, Digit.value (ds.take 1), ds.drop 1, exponentOf lead⟩

/-- The numeral for a finite number. -/
def numeral (negative : Bool) (mantissa : Nat) (exponent : Int) : Numeral :=
  if mantissa = 0 then ⟨negative, 0, [Digit.zero], none⟩
  else
    let (ds, s) := shortest mantissa exponent
    layOut negative ds (s + ds.length - 1)

end Binary64

/-- The document for a double precision number; only a finite one has a numeral. -/
def Json.ofBinary64? : Binary64 → Option Json
  | .finite negative mantissa exponent =>
    some (.number (Binary64.numeral negative mantissa exponent))
  | .infinite _ => none
  | .nan => none

end DocFilter
