import DocFilter.Path.Subscript
import DocFilter.Text.Blank
import DocFilter.Text.Digit

/-!
# Reading subscripts

A subscript is scanned character by character. The scan knows in which phase it is, and keeps the
entries that it has finished, the digits of the number that it is in, and the index that has been
read before `to`. Blanks may stand around every entry and have to stand around `to`.

## Main definitions

* `Subscript.Sign`: the kinds of characters in a subscript.
* `Subscript.Scan`: what a scan knows.
* `Scan.step`, `Scan.run`, `Scan.finish?`: a scan goes on by one sign, over a text, and ends.
* `Subscript.ofChars?`, `Subscript.ofText?`: the subscript that a text is, without its brackets.
-/

namespace DocFilter.Subscript

/-- The kinds of characters in a subscript. -/
inductive Sign where
  | blank
  | digit (d : Digit)
  | star
  | comma
  /-- The first letter of `to`. -/
  | t
  /-- The second letter of `to`. -/
  | o
deriving DecidableEq, Repr

/-- The kind of a character; others cannot stand in a subscript. -/
def Sign.ofChar? (c : Char) : Option Sign :=
  if isBlank c then some blank
  else
    match Digit.ofChar? c with
    | some d => some (digit d)
    | none =>
      match c with
      | '*' => some star
      | ',' => some comma
      | 't' => some t
      | 'o' => some o
      | _ => none

/-- Where a scan stands in a subscript. -/
inductive Scan.Phase where
  /-- Before everything but blanks. -/
  | start
  /-- Behind `*`. -/
  | star
  /-- In the digits of an index. -/
  | index
  /-- Behind an index and a blank, where `to` may follow. -/
  | afterIndex
  /-- Behind the first letter of `to`. -/
  | afterT
  /-- Behind `to`. -/
  | afterTo
  /-- Behind `to` and a blank. -/
  | rangeGap
  /-- In the digits of the upper end of a range. -/
  | rangeEnd
  /-- Behind a range and a blank. -/
  | afterRangeEnd
  /-- Behind a comma. -/
  | comma
deriving DecidableEq, Repr

/-- What a scan knows. -/
structure Scan where
  phase : Scan.Phase
  /-- The finished entries. -/
  extents : List Extent
  /-- The digits of the number that the scan is in. -/
  digits : List Digit
  /-- The index that is no entry yet, because a range may start with it. -/
  low : Option Nat
deriving DecidableEq, Repr

namespace Scan

/-- The scan of an empty text. -/
def empty : Scan := ⟨.start, [], [], none⟩

/-- The index of 64 bits that some digits write. -/
def index? (ds : List Digit) : Option Nat :=
  if ds ≠ [] ∧ Digit.value ds ≤ Extent.maxIndex then some (Digit.value ds) else none

/-- Takes a digit. -/
def push (d : Digit) (phase : Phase) (s : Scan) : Scan :=
  { s with phase, digits := s.digits ++ [d] }

/-- Ends the digits of an index, which may still become the lower end of a range. -/
def endIndex? (s : Scan) : Option Scan :=
  if s.digits = [] then some s
  else (index? s.digits).map fun n => { s with digits := [], low := some n }

/-- Makes the index that has been read an entry. -/
def finishIndex? (s : Scan) : Option Scan :=
  s.low.map fun n => { s with extents := s.extents ++ [.index n], low := none }

/-- Makes the range that has been read an entry, if it does not go backwards. -/
def finishRange? (s : Scan) : Option Scan := do
  let low ← s.low
  let high ← index? s.digits
  if high < low then none
  else return { s with extents := s.extents ++ [.range low high], digits := [], low := none }

/-- The scan goes on by one sign. -/
def step (s : Scan) (sign : Sign) : Option Scan :=
  match s.phase, sign with
  | .start, .blank => some s
  | .start, .star => some { s with phase := .star }
  | .start, .digit d => some (s.push d .index)
  | .star, .blank => some s
  | .index, .digit d => some (s.push d .index)
  | .index, .blank => s.endIndex?.map ({ · with phase := .afterIndex })
  | .index, .comma => (s.endIndex?.bind finishIndex?).map ({ · with phase := .comma })
  | .afterIndex, .blank => some s
  | .afterIndex, .comma => s.finishIndex?.map ({ · with phase := .comma })
  | .afterIndex, .t => some { s with phase := .afterT }
  | .afterT, .o => some { s with phase := .afterTo }
  | .afterTo, .blank => some { s with phase := .rangeGap }
  | .rangeGap, .blank => some s
  | .rangeGap, .digit d => some (s.push d .rangeEnd)
  | .rangeEnd, .digit d => some (s.push d .rangeEnd)
  | .rangeEnd, .blank => s.finishRange?.map ({ · with phase := .afterRangeEnd })
  | .rangeEnd, .comma => s.finishRange?.map ({ · with phase := .comma })
  | .afterRangeEnd, .blank => some s
  | .afterRangeEnd, .comma => some { s with phase := .comma }
  | .comma, .blank => some s
  | .comma, .digit d => some (s.push d .index)
  | _, _ => none

/-- The scan goes on over a text. -/
def run (s : Scan) : List Char → Option Scan
  | [] => some s
  | c :: cs => do
    let sign ← Sign.ofChar? c
    (← s.step sign).run cs

/-- The subscript of a scan that has reached the end of the text. -/
def finish? (s : Scan) : Option Subscript :=
  match s.phase with
  | .star => some .all
  | .index => (s.endIndex?.bind finishIndex?).map (.list ·.extents)
  | .afterIndex => s.finishIndex?.map (.list ·.extents)
  | .rangeEnd => s.finishRange?.map (.list ·.extents)
  | .afterRangeEnd => some (.list s.extents)
  | _ => none

end Scan

/-! ### Subscripts -/

/-- The subscript that the characters between two brackets are. -/
def ofChars? (cs : List Char) : Option Subscript :=
  (Scan.empty.run cs).bind Scan.finish?

/-- The subscript that the text between two brackets is. -/
def ofText? (s : String) : Option Subscript :=
  ofChars? s.toList

end DocFilter.Subscript
