import DocFilter.Error
import DocFilter.Path.Rendition

/-!
# Values that are missing or not scalar

When a single value of a document is taken, the path may lead to nothing, to an array or object, or
to several values. The error mode says what happens then.

## Main definitions

* `ErrorMode`: the modes.
* `ErrorMode.pathText`, `ErrorMode.onError`: how a mode is written in SQL.
-/

namespace DocFilter

/-- How a value is taken where the path does not lead to one scalar. -/
inductive ErrorMode where
  /-- Arrays give their first element, and all else gives null. -/
  | firstElement
  /-- Everything but one scalar gives null. -/
  | lax
  /-- Everything but one scalar is an error. -/
  | scalarRequired
deriving DecidableEq, Repr

namespace ErrorMode

/-- The mode that the flags `$lax` and `$scalarRequired` of a clause select. -/
def ofFlags (key : String) (lax scalarRequired : Bool) : Except Error ErrorMode :=
  match lax, scalarRequired with
  | true, true => .error (.conflictingErrorClauses key)
  | true, false => .ok .lax
  | false, true => .ok .scalarRequired
  | false, false => .ok .firstElement

/-- The clause of SQL for a value that cannot be taken. -/
def onError : ErrorMode → String
  | firstElement => "NULL ON ERROR"
  | lax => "NULL ON ERROR"
  | scalarRequired => "ERROR ON ERROR"

/-- The path as it is written in a mode: only `firstElement` goes into arrays. -/
def pathText : ErrorMode → Path → String
  | firstElement, p => p.singleton true
  | lax, p => p.singleton false
  | scalarRequired, p => p.singleton false

end ErrorMode

end DocFilter
