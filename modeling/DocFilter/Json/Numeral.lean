import DocFilter.Text.Digit

/-!
# Numerals

A number of a JSON text is kept as it was written, digit for digit, so that it can be bound to a
statement without rounding. Only the exponent has a normal form: its mark is `e` and its sign is
always written. Two numerals are equal exactly when their texts are.

## Main definitions

* `Numeral`: sign, whole part, fraction digits and exponent.
* `Numeral.text`: the normal form of a numeral.
* `Numeral.read`, `Numeral.ofText?`: a numeral at the start of a text, or as all of it.
* `Numeral.toInt64?`, `Numeral.toUInt64?`: the value of a plain integer of that range.
-/

namespace DocFilter

/-- The exponent of a numeral: a sign and at least one digit, with leading zeros as written. -/
structure Exponent where
  negative : Bool
  lead : Digit
  rest : List Digit
deriving DecidableEq, Repr

/-- A decimal number as it is written in JSON. Without fraction digits there is no point. -/
structure Numeral where
  negative : Bool
  whole : Nat
  fraction : List Digit
  exponent : Option Exponent
deriving DecidableEq, Repr

namespace Exponent

/-- All digits of an exponent, of which there is one at least. -/
def digits (e : Exponent) : List Digit :=
  e.lead :: e.rest

/-- The exponent behind the mark `e`, always with a sign. -/
def text (e : Exponent) : String :=
  (if e.negative then "e-" else "e+") ++ Digit.text e.digits

/-- The exponent as an integer. -/
def value (e : Exponent) : Int :=
  if e.negative then -(Digit.value e.digits : Int) else Digit.value e.digits

/-- The sign and digits after the mark of an exponent. -/
def readBody (negative : Bool) (cs : List Char) : Option (Exponent × List Char) :=
  match Digit.run cs with
  | (d :: ds, rest) => some (⟨negative, d, ds⟩, rest)
  | ([], _) => none

/-- An optional exponent: the outer `none` is a mark without digits. -/
def read? : List Char → Option (Option Exponent × List Char)
  | c :: cs =>
    if c = 'e' ∨ c = 'E' then
      (match cs with
        | '+' :: rest => readBody false rest
        | '-' :: rest => readBody true rest
        | rest => readBody false rest).map fun (e, rest) => (some e, rest)
    else some (none, c :: cs)
  | [] => some (none, [])

end Exponent

namespace Numeral

/-- The numeral of a natural number. -/
def ofNat (n : Nat) : Numeral :=
  ⟨false, n, [], none⟩

/-- The numeral of an integer. -/
def ofInt (n : Int) : Numeral :=
  ⟨decide (n < 0), n.natAbs, [], none⟩

instance : Inhabited Numeral := ⟨ofNat 0⟩

/-- The numeral with the mark `e` and an explicit sign in its exponent. -/
def text (n : Numeral) : String :=
  (if n.negative then "-" else "") ++ Nat.repr n.whole ++
    (if n.fraction.isEmpty then "" else "." ++ Digit.text n.fraction) ++
    (n.exponent.map Exponent.text).getD ""

/-- The whole part: a zero by itself, or digits that start with another one. -/
def readWhole : List Char → Option (Nat × List Char)
  | '0' :: cs => some (0, cs)
  | cs =>
    match Digit.run cs with
    | ([], _) => none
    | (ds, rest) => some (Digit.value ds, rest)

/-- The fraction digits: none without a point, and at least one after it. -/
def readFraction : List Char → Option (List Digit × List Char)
  | '.' :: cs =>
    match Digit.run cs with
    | ([], _) => none
    | (ds, rest) => some (ds, rest)
  | cs => some ([], cs)

/-- A numeral without its sign. -/
def readMagnitude (negative : Bool) (cs : List Char) : Option (Numeral × List Char) := do
  let (whole, cs) ← readWhole cs
  let (fraction, cs) ← readFraction cs
  let (exponent, cs) ← Exponent.read? cs
  return (⟨negative, whole, fraction, exponent⟩, cs)

/-- The numeral at the start of a text, and the text after it. A zero keeps its sign. -/
def read : List Char → Option (Numeral × List Char)
  | '-' :: cs => readMagnitude true cs
  | cs => readMagnitude false cs

/-- The numeral that a text is, with nothing before or after it. -/
def ofText? (s : String) : Option Numeral :=
  match read s.toList with
  | some (n, []) => some n
  | _ => none

/-- A numeral without point and exponent, as an integer. -/
def toInt? (n : Numeral) : Option Int :=
  if n.fraction.isEmpty && n.exponent.isNone then
    some (if n.negative then -(n.whole : Int) else n.whole)
  else none

/-- The value of a plain integer that has 64 bits with its sign. -/
def toInt64? (n : Numeral) : Option Int :=
  n.toInt?.filter fun i => -0x8000000000000000 ≤ i && i ≤ 0x7FFFFFFFFFFFFFFF

/-- The value of a plain integer of 64 bits that is written without a sign. -/
def toUInt64? (n : Numeral) : Option Nat :=
  if n.negative then none else (n.toInt?.map Int.toNat).filter (· ≤ 0xFFFFFFFFFFFFFFFF)

/-- All digits of a numeral without its point, as a number. -/
def significand (n : Numeral) : Nat :=
  n.fraction.foldl (fun (k : Nat) (d : Digit) => 10 * k + d.val) n.whole

/-- The power of ten that scales the significand to the magnitude of the numeral. -/
def scale (n : Numeral) : Int :=
  (n.exponent.map Exponent.value).getD 0 - n.fraction.length

end Numeral

end DocFilter
