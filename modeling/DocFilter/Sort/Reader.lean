import DocFilter.Json.Expect
import DocFilter.Keyword
import DocFilter.Path.Reader
import DocFilter.Sort.Basic

/-!
# Reading sort orders

A sort order is given in one of two forms. The map form gives every path a rank, a non-zero
integer: its magnitude is the place in the order and its sign the direction. The list form gives
the entries in order, as an array or under `$fields` together with flags.

## Main definitions

* `SortEntry.read`: an entry of the list form.
* `SortSpec.readRanks`: the map form.
* `SortSpec.read`: a sort order in either form.
-/

namespace DocFilter

/-- A text with the capital letters of ASCII made small. -/
def asciiLower (s : String) : String :=
  String.ofList (s.toList.map Char.toLower)

/-- The type of a name of either case. -/
def SortType.ofName (name : String) : Except Error SortType :=
  let lower := asciiLower name
  if lower = "varchar" ∨ lower = "varchar2" ∨ lower = "string" then .ok .varchar
  else if lower = "number" then .ok .number
  else if lower = "date" then .ok .date
  else if lower = "datetime" ∨ lower = "timestamp" then .ok .timestamp
  else .error (.invalidLiteral "datatype" ("unsupported order by datatype '" ++ name ++ "'"))

/-- The direction of a rank that is not zero. -/
def Direction.ofRank (rank : Int) : Direction :=
  if rank < 0 then .descending else .ascending

/-- A direction by name or by the sign of an integer. -/
def Direction.read : Json → Except Error Direction
  | .string s =>
    if asciiLower s = "asc" then .ok .ascending
    else if asciiLower s = "desc" then .ok .descending
    else .error (.invalidLiteral "order" ("'" ++ s ++ "' is not asc or desc"))
  | .number n =>
    match n.toInt64?.filter (· ≠ 0) with
    | some rank => .ok (.ofRank rank)
    | none => .error (.invalidLiteral "order" ("'" ++ n.text ++ "' is not 1 or -1"))
  | other => .error (other.mismatch "order" "string or number")

/-- A positive length of 32 bits. -/
def readMaxLength (value : Json) : Except Error Nat := do
  let n ← value.expectNumber "maxLength"
  match n.toUInt64?.filter fun k => 0 < k && k ≤ 0xFFFFFFFF with
  | some k => return k
  | none => throw (.invalidLiteral "maxLength" "must be a positive integer")

/-! ### The list form -/

namespace SortEntry

/-- What has been read of an entry. Later members replace earlier ones. -/
structure Draft where
  path : Option Path := none
  datatype : Option SortType := none
  direction : Direction := .ascending
  maxLength : Option Nat := none
  minMax : Bool := false

/-- One member of an entry. -/
def Draft.add (d : Draft) (key : String) (value : Json) : Except Error Draft :=
  if key = "path" then do
    let path ← Path.ofSingletonText (← value.expectString key)
    return { d with path := some path }
  else if key = "datatype" then do
    let datatype ← SortType.ofName (← value.expectString key)
    return { d with datatype := some datatype }
  else if key = "order" then
    (Direction.read value).map fun direction => { d with direction }
  else if key = "maxLength" then
    (readMaxLength value).map fun n => { d with maxLength := some n }
  else if key = "sortByMinMax" then
    (value.expectBool key).map fun minMax => { d with minMax }
  else .error (.unknownOperator key)

/-- An entry of the list form. -/
def read (value : Json) : Except Error SortEntry := do
  let members ← value.expectMembers "$fields"
  let d ← members.foldlM (fun d (key, value) => Draft.add d key value) {}
  let some path := d.path | throw (.invalidLiteral "$fields" "entry has no path")
  return ⟨path, d.datatype, d.direction, d.maxLength, d.minMax⟩

/-- The entries of a list, of which there has to be one at least. -/
def readAll (items : List Json) : Except Error (List SortEntry) :=
  if items.isEmpty then .error (.emptyContent "$fields") else items.mapM read

end SortEntry

namespace SortSpec

/-- What has been read of the list form with flags. -/
structure Draft where
  entries : Option (List SortEntry) := none
  lax : Bool := false
  scalarRequired : Bool := false

/-- One member of the list form with flags. -/
def Draft.add (d : Draft) (key : String) (value : Json) : Except Error Draft :=
  if key = "$fields" then do
    if d.entries.isSome then throw (.multipleClauses key)
    let entries ← SortEntry.readAll (← value.expectItems key)
    return { d with entries := some entries }
  else if key = "$lax" then
    (value.expectBool key).map fun lax => { d with lax }
  else if key = "$scalarRequired" then
    (value.expectBool key).map fun scalarRequired => { d with scalarRequired }
  else .error (if isDollarKey key then .unknownOperator key else .misplacedOperator key)

/-- The list form with flags. -/
def readFields (members : List (String × Json)) : Except Error SortSpec := do
  let d ← members.foldlM (fun d (key, value) => Draft.add d key value) {}
  return ⟨d.entries.getD [], ← ErrorMode.ofFlags "$orderby" d.lax d.scalarRequired⟩

/-! ### The map form -/

/-- A rank, and the entry that it is given to. -/
def readRank (key : String) (value : Json) : Except Error (Int × SortEntry) := do
  if isDollarKey key then throw (.unknownOperator key)
  let n ← value.expectNumber key
  let some rank := n.toInt64?.filter (· ≠ 0)
    | throw (.invalidLiteral key "order by position must be a non-zero integer")
  return (rank, .simple (← Path.ofSingletonText key) (.ofRank rank))

/-- The entries by the magnitude of their rank; entries of one magnitude keep their order. -/
def byMagnitude (ranked : List (Int × SortEntry)) : List (Int × SortEntry) :=
  ranked.mergeSort fun a b => a.1.natAbs ≤ b.1.natAbs

/-- The map form. -/
def readRanks (members : List (String × Json)) : Except Error SortSpec := do
  if members.isEmpty then throw (.emptyContent "$orderby")
  let ranked ← members.mapM fun (key, value) => readRank key value
  return ⟨(byMagnitude ranked).map Prod.snd, .firstElement⟩

/-- The sort order under `$orderby`. -/
def read : Json → Except Error SortSpec
  | .object members =>
    if members.any fun (key, _) => key = "$fields" then readFields members else readRanks members
  | .array items => (SortEntry.readAll items).map (⟨·, .firstElement⟩)
  | other => .error (other.mismatch "$orderby" "object or array")

end SortSpec

end DocFilter
