/-!
# Array subscripts

The text between the brackets of an array step: `*` for all elements, or a list of indexes `N` and
ranges `N to M` with commas between them. Indexes have 64 bits.

## Main definitions

* `Extent`, `Subscript`: the entries of a subscript, and the subscripts.
* `Subscript.text`: a subscript with its brackets and without spare blanks.
-/

namespace DocFilter

/-- An entry of a subscript: one index, or all from the first to the second. -/
inductive Extent where
  | index (n : Nat)
  | range (low high : Nat)
deriving DecidableEq, Repr

/-- Which elements of an array a step selects. -/
inductive Subscript where
  | all
  | list (extents : List Extent)
deriving DecidableEq, Repr

namespace Extent

/-- The largest index. -/
def maxIndex : Nat := 0xFFFFFFFFFFFFFFFF

/-- The entry as it is written in a subscript. -/
def text : Extent → String
  | index n => Nat.repr n
  | range low high => Nat.repr low ++ " to " ++ Nat.repr high

end Extent

namespace Subscript

/-- The subscript with its brackets. -/
def text : Subscript → String
  | all => "[*]"
  | list extents => "[" ++ String.intercalate "," (extents.map Extent.text) ++ "]"

/-- Whether all elements are selected. -/
def isWildcard : Subscript → Bool
  | all => true
  | list _ => false

end Subscript

end DocFilter
