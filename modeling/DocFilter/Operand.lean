import DocFilter.Binary64.Nearest
import DocFilter.Calendar.Reader
import DocFilter.Json.Expect

/-!
# Operands

The scalars that a filter compares with. An operand under `$date` or `$timestamp` is brought to the
normal form of a date or timestamp. In the end an operand is either written into the expression or
bound to a variable of the statement, behind a conversion if it is a date or timestamp.

## Main definitions

* `Scalar`, `Operand`: a scalar, and a scalar with its temporal sense.
* `Operand.toDate`, `Operand.toTimestamp`: the normal forms.
* `Operand.inline?`, `Operand.bind?`, `Operand.conversion`: how an operand reaches the statement.
* `Operand.isTruthy`: the sense of an operand of `$exists`.
-/

namespace DocFilter

/-- A document that is neither an array nor an object. -/
inductive Scalar where
  | null
  | bool (b : Bool)
  | number (n : Numeral)
  | string (s : String)
deriving DecidableEq, Repr

/-- The kind of a scalar, as error messages name it. -/
def Scalar.kind : Scalar → String
  | null => "null"
  | bool _ => "boolean"
  | number _ => "number"
  | string _ => "string"

/-- What an operand stands for besides itself. -/
inductive Sense where
  | plain
  | date
  | timestamp
deriving DecidableEq, Repr

/-- A scalar to compare with. -/
structure Operand where
  scalar : Scalar
  sense : Sense
deriving DecidableEq, Repr

/-- A value that is handed to the database beside the statement. -/
inductive Bind where
  | number (n : Numeral)
  | text (s : String)
deriving DecidableEq, Repr

/-- How SQL converts a bound value before it is compared. -/
inductive Conversion where
  | plain
  | dateString
  | timestampString
  /-- Milliseconds since 1970 as a date. -/
  | dateMillis
  /-- Milliseconds since 1970 as a timestamp. -/
  | timestampMillis
deriving DecidableEq, Repr

/-- The expression of SQL around the placeholder of a bound value. -/
def Conversion.placeholder : Conversion → String
  | plain => "?"
  | dateString => "TO_DATE(?, 'YYYY-MM-DD')"
  | timestampString => "TO_TIMESTAMP(?, 'YYYY-MM-DD\"T\"HH24:MI:SS.FF')"
  | dateMillis => "(TO_DATE('2440588', 'J') + ?/86400000)"
  | timestampMillis =>
    "(CAST(TO_DATE('2440588', 'J') AS TIMESTAMP) + NUMTODSINTERVAL(?/1000, 'SECOND'))"

namespace Operand

/-- An operand that is neither a date nor a timestamp. -/
def plain (scalar : Scalar) : Operand :=
  ⟨scalar, .plain⟩

/-- The operand that a scalar document is. -/
def ofJson (key : String) : Json → Except Error Operand
  | .null => .ok (plain .null)
  | .bool b => .ok (plain (.bool b))
  | .number n => .ok (plain (.number n))
  | .string s => .ok (plain (.string s))
  | other => .error (other.mismatch key "scalar")

/-- Whether an operand is null. -/
def isNull (o : Operand) : Bool :=
  o.scalar = .null

/-! ### Dates and timestamps -/

/-- The normal form of a string that denotes a moment, by `write`; numbers are milliseconds and
stay as they are. -/
def toTemporal (sense : Sense) (noun : String) (write : Moment → String) (key : String)
    (o : Operand) : Except Error Operand :=
  match o.scalar with
  | .string s =>
    match Moment.ofText? s with
    | some m => .ok ⟨.string (write m), sense⟩
    | none => .error (.invalidLiteral key ("'" ++ s ++ "' is not an ISO-8601 " ++ noun))
  | .number n => .ok ⟨.number n, sense⟩
  | other => .error (.typeMismatch key "string or number" other.kind)

/-- The operand of `$date`: a string becomes `YYYY-MM-DD`. -/
def toDate (key : String) (o : Operand) : Except Error Operand :=
  o.toTemporal .date "date" (fun m => m.date.text) key

/-- The operand of `$timestamp`: a string becomes `YYYY-MM-DDTHH:MM:SS.ffffff` in universal
time. -/
def toTimestamp (key : String) (o : Operand) : Except Error Operand :=
  o.toTemporal .timestamp "timestamp" Moment.text key

/-! ### Use in a statement -/

/-- The text of an operand that is written into the expression: booleans, null, and the strings
that read like them. -/
def inline? (o : Operand) : Option String :=
  match o.scalar with
  | .bool b => some (if b then "true" else "false")
  | .null => some "null"
  | .string s => if s = "true" ∨ s = "false" ∨ s = "null" then some ("\"" ++ s ++ "\"") else none
  | .number _ => none

/-- The value to bind for an operand. -/
def bind? (o : Operand) : Option Bind :=
  match o.scalar with
  | .number n => some (.number n)
  | .string s => some (.text s)
  | .bool _ => none
  | .null => none

/-- Whether an operand is a number, which stands for milliseconds in a date or timestamp. -/
def isNumber (o : Operand) : Bool :=
  match o.scalar with
  | .number _ => true
  | _ => false

/-- How SQL gets the value of an operand from what is bound for it. -/
def conversion (o : Operand) : Conversion :=
  match o.sense with
  | .plain => .plain
  | .date => if o.isNumber then .dateMillis else .dateString
  | .timestamp => if o.isNumber then .timestampMillis else .timestampString

/-- Whether `$exists` with this operand asks for presence. A number counts as its nearest double
precision number, which has to be finite and not zero. -/
def isTruthy (o : Operand) : Bool :=
  match o.scalar with
  | .bool b => b
  | .null => false
  | .number n => n.toBinary64.isNonzero
  | .string _ => true

end Operand

end DocFilter
