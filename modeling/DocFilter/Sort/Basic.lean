import DocFilter.Sql.ErrorMode
import DocFilter.Sql.Fragment

/-!
# Sort orders

The order in which documents are listed: a list of paths, each with a direction and optionally a
type to which its values are converted.

## Main definitions

* `SortEntry`, `SortSpec`: one path to sort by, and all of them with their error mode.
* `KeyColumn`: a column that holds the value of a path.
* `SortSpec.render`: the list behind `ORDER BY`.
-/

namespace DocFilter

/-- The type by which values are sorted. -/
inductive SortType where
  | varchar | number | date | timestamp
deriving DecidableEq, Repr

/-- The type of a key column. -/
inductive KeyType where
  | varchar | number | raw
deriving DecidableEq, Repr

/-- Whether small or large values come first. -/
inductive Direction where
  | ascending | descending
deriving DecidableEq, Repr

/-- A path to sort by. With `minMax` the least or greatest value of an array counts. -/
structure SortEntry where
  path : Path
  datatype : Option SortType
  direction : Direction
  maxLength : Option Nat
  minMax : Bool
deriving DecidableEq, Repr

/-- The paths to sort by, most significant first. -/
structure SortSpec where
  entries : List SortEntry
  mode : ErrorMode
deriving DecidableEq, Repr

/-- A column that holds the value at a path of every document. -/
structure KeyColumn where
  path : Path
  column : String
  keyType : KeyType
deriving DecidableEq, Repr

/-- The keyword of SQL for a direction. -/
def Direction.sql : Direction → String
  | ascending => "ASC"
  | descending => "DESC"

namespace SortType

/-- The type of SQL; a length bounds the strings. -/
def returning (maxLength : Option Nat) : SortType → String
  | varchar => "VARCHAR2(" ++ Nat.repr (maxLength.getD 4000) ++ ")"
  | number => "NUMBER"
  | date => "DATE"
  | timestamp => "TIMESTAMP"

/-- Whether a column of the key type sorts its values as this type does. -/
def matchesKey : SortType → KeyType → Bool
  | varchar, .varchar => true
  | number, .number => true
  | _, _ => false

end SortType

namespace SortEntry

/-- An entry with no more than a path and a direction. -/
def simple (path : Path) (direction : Direction) : SortEntry :=
  ⟨path, none, direction, none, false⟩

/-- The type of SQL to which values are converted. A length alone means strings. -/
def returning? (e : SortEntry) : Option String :=
  match e.datatype, e.maxLength with
  | some type, maxLength => some (type.returning maxLength)
  | none, some maxLength => some ("VARCHAR2(" ++ Nat.repr maxLength ++ ")")
  | none, none => none

/-- The path of an entry. -/
def pathText (mode : ErrorMode) (e : SortEntry) : String :=
  if e.minMax then
    e.path.singleton false ++
      match e.direction with
      | .ascending => ".min()"
      | .descending => ".max()"
  else mode.pathText e.path

/-- The entry in SQL. -/
def render (column : String) (mode : ErrorMode) (e : SortEntry) : String :=
  "JSON_VALUE(" ++ quoteIdentifier column ++ ", '" ++ e.pathText mode ++ "'" ++
    (match e.returning? with
      | some type => " RETURNING " ++ type
      | none => "") ++
    " " ++ mode.onError ++ ") " ++ e.direction.sql

end SortEntry

namespace SortSpec

/-- The key column alone, where it gives the same order: it holds the only path to sort by, and if
`strict` also values of the type asked for. -/
def keyColumn? (spec : SortSpec) (key : KeyColumn) (strict : Bool) : Option String :=
  match spec.entries with
  | [e] =>
    if e.path = key.path ∧ e.minMax = false ∧ spec.mode ≠ .lax ∧
        e.datatype.all fun type => !strict || type.matchesKey key.keyType then
      some (quoteIdentifier key.column ++ " " ++ e.direction.sql)
    else none
  | _ => none

/-- The list behind `ORDER BY`. -/
def render (column : String) (key : Option KeyColumn) (strict : Bool) (spec : SortSpec) : String :=
  match key.bind fun key => spec.keyColumn? key strict with
  | some sql => sql
  | none => String.intercalate ", " (spec.entries.map (SortEntry.render column spec.mode))

end SortSpec

end DocFilter
