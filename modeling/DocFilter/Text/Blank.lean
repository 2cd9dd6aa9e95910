/-!
# Blank characters

The characters with the Unicode property `White_Space`, and the text left when leading blanks are
taken off.

## Main definitions

* `isBlank`: the property.
* `skipBlank`: a text without its leading blanks.
-/

namespace DocFilter

/-- The Unicode property `White_Space`. -/
def isBlank (c : Char) : Bool :=
  let n := c.toNat
  (0x09 ≤ n && n ≤ 0x0D) || n == 0x20 || n == 0x85 || n == 0xA0 || n == 0x1680 ||
    (0x2000 ≤ n && n ≤ 0x200A) || n == 0x2028 || n == 0x2029 || n == 0x202F || n == 0x205F ||
    n == 0x3000

/-- A text without its leading blanks. -/
def skipBlank (cs : List Char) : List Char :=
  cs.dropWhile isBlank

end DocFilter
