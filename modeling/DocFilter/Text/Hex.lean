/-!
# Hexadecimal digits

Reading and writing numbers in base sixteen, as escape sequences use them.

## Main definitions

* `Hex.ofChar?`, `Hex.value?`: the number of one digit of either case, or of a list of them.
* `Hex.lower`, `Hex.upper`: the last four digits of a number in either case.
* `Hex.scalar?`: the character with a given code, where there is one.
-/

namespace DocFilter.Hex

/-- The number of a hexadecimal digit of either case. -/
def ofChar? (c : Char) : Option Nat :=
  if '0' ≤ c ∧ c ≤ '9' then some (c.toNat - '0'.toNat)
  else if 'a' ≤ c ∧ c ≤ 'f' then some (c.toNat - 'a'.toNat + 10)
  else if 'A' ≤ c ∧ c ≤ 'F' then some (c.toNat - 'A'.toNat + 10)
  else none

/-- The number that some hexadecimal digits write, most significant first. -/
def value? (cs : List Char) : Option Nat :=
  cs.foldl (fun n c => do return 16 * (← n) + (← ofChar? c)) (some 0)

/-- One lower-case digit, for a number below sixteen. -/
def lowerDigit (n : Nat) : Char :=
  Nat.digitChar n

/-- One upper-case digit, for a number below sixteen. -/
def upperDigit (n : Nat) : Char :=
  (Nat.digitChar n).toUpper

/-- The last four digits of a number, in lower case. -/
def lower (n : Nat) : List Char :=
  [lowerDigit (n / 4096 % 16), lowerDigit (n / 256 % 16), lowerDigit (n / 16 % 16),
    lowerDigit (n % 16)]

/-- The last four digits of a number, in upper case. -/
def upper (n : Nat) : List Char :=
  [upperDigit (n / 4096 % 16), upperDigit (n / 256 % 16), upperDigit (n / 16 % 16),
    upperDigit (n % 16)]

/-- The character with code `n`; the surrogates and the numbers past U+10FFFF have none. -/
def scalar? (n : Nat) : Option Char :=
  if n.isValidChar then some (Char.ofNat n) else none

end DocFilter.Hex
