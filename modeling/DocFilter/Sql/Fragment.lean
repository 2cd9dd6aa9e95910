import DocFilter.Operand

/-!
# Fragments of SQL

A piece of a statement with the values for its placeholders in order.

## Main definitions

* `Fragment`, `Fragment.join`: pieces of a statement, and several of them as one.
* `quoteIdentifier`: the name of a column as SQL takes it.
-/

namespace DocFilter

/-- A text of SQL, and the values for its placeholders `?` in order. -/
structure Fragment where
  sql : String
  binds : List Bind
deriving DecidableEq, Repr

/-- The fragments one after the other, with `separator` between each two of them. -/
def Fragment.join (separator : String) : List Fragment → Option Fragment
  | [] => none
  | fragments =>
    some ⟨String.intercalate separator (fragments.map Fragment.sql),
      fragments.flatMap Fragment.binds⟩

/-- A column by its exact name. The name must not have double quotes. -/
def quoteIdentifier (name : String) : String :=
  "\"" ++ name ++ "\""

end DocFilter
