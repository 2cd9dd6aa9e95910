import DocFilter.Keyword
import DocFilter.Path.Reader
import DocFilter.Path.Rendition
import DocFilter.Sql.Fragment

/-!
# Comparisons of single values

`$sqlJson` compares single values of a document outside the filter expression, in a form that an
index can serve. Only `$eq`, `$ne`, `$gt`, `$gte`, `$lt` and `$lte` are understood, under one
modifier that converts to a type of SQL at most.

## Main definitions

* `Comparison`: a comparison of one value.
* `Comparison.readAll`: the comparisons of a document under `$sqlJson`.
* `Comparison.render`: a comparison in SQL.
-/

namespace DocFilter

/-- How a value is compared. -/
inductive ComparisonOp where
  | eq | ne | gt | gte | lt | lte
deriving DecidableEq, Repr

namespace ComparisonOp

/-- The comparison that an operator makes outside of an expression; most operators make none. -/
def ofOperator? : Operator → Option ComparisonOp
  | .eq => some eq
  | .ne => some ne
  | .gt => some gt
  | .gte => some gte
  | .lt => some lt
  | .lte => some lte
  | _ => none

/-- The operator of SQL. -/
def sql : ComparisonOp → String
  | eq => "="
  | ne => "<>"
  | gt => ">"
  | gte => ">="
  | lt => "<"
  | lte => "<="

end ComparisonOp

/-- A comparison of the value at `path`, converted by `returning`, with an operand. -/
structure Comparison where
  path : Path
  op : ComparisonOp
  returning : Option Modifier
  operand : Operand
deriving DecidableEq, Repr

namespace Comparison

/-! ### Reading -/

/-- A comparison with a scalar that is not null. -/
def ofOperand (path : Path) (returning : Option Modifier) (op : ComparisonOp) (key : String)
    (value : Json) : Except Error Comparison := do
  let operand ← Operand.ofJson key value
  if operand.isNull then throw (.typeMismatch key "non-null scalar" "null")
  let operand ← match returning with
    | some .date => operand.toDate key
    | some .timestamp => operand.toTimestamp key
    | _ => pure operand
  return ⟨path, op, returning, operand⟩

/-- The error for a key that is no comparison where one is expected, under `outer` if there is
one. -/
def refusal (outer : Option Modifier) (key : String) : Error :=
  match Keyword.ofKey? key, outer with
  | some (.modifier m), some outer =>
    if m.returning?.isSome then .nestedModifier key outer.keyword else .misplacedOperator key
  | some _, _ => .misplacedOperator key
  | none, _ => if isDollarKey key then .unknownOperator key else .misplacedOperator key

/-- An operator with its operand, under `returning` if it is given. -/
def readOperator (path : Path) (returning : Option Modifier) (key : String) (value : Json) :
    Except Error Comparison :=
  match Keyword.ofKey? key with
  | some (.operator op) =>
    match ComparisonOp.ofOperator? op with
    | some op => ofOperand path returning op key value
    | none => .error (.misplacedOperator key)
  | _ => .error (refusal returning key)

/-- A modifier with its operators, or with a scalar that the value has to equal. -/
def readModified (path : Path) (m : Modifier) (key : String) : Json → Except Error (List Comparison)
  | .object [] => .error (.emptyContent key)
  | .object members => members.mapM fun (k, v) => readOperator path (some m) k v
  | .array items => .error ((Json.array items).mismatch key "scalar or object")
  | scalar => (ofOperand path (some m) .eq key scalar).map ([·])

/-- A member of the object of a field. -/
def readMember (path : Path) (key : String) (value : Json) : Except Error (List Comparison) :=
  match Keyword.ofKey? key with
  | some (.modifier m) =>
    if m.returning?.isSome then readModified path m key value
    else .error (.misplacedOperator key)
  | _ => (readOperator path none key value).map ([·])

/-- A field with its operators, or with a scalar that the value has to equal. -/
def readField (field : String) (value : Json) : Except Error (List Comparison) := do
  if (Keyword.ofKey? field).isSome then throw (.misplacedOperator field)
  if isDollarKey field then throw (.unknownOperator field)
  let path ← Path.ofSingletonText field
  match value with
  | .object [] => throw (.emptyContent field)
  | .object members => return (← members.mapM fun (k, v) => readMember path k v).flatten
  | .array items => throw ((Json.array items).mismatch field "scalar or object")
  | scalar => return [← ofOperand path none .eq field scalar]

/-- The comparisons under `$sqlJson`. -/
def readAll (value : Json) : Except Error (List Comparison) := do
  let members ← value.expectSomeMembers "$sqlJson"
  return (← members.mapM fun (k, v) => readField k v).flatten

/-! ### Rendering -/

/-- The type to which the value is converted: that of the modifier, or numbers by their operand. -/
def returningType? (c : Comparison) : Option String :=
  match c.returning.bind Modifier.returning? with
  | some type => some type
  | none => if c.operand.isNumber then some "NUMBER" else none

/-- The right side of a comparison. -/
def operandFragment (o : Operand) : Fragment :=
  match o.scalar, o.bind? with
  | .bool b, _ => ⟨if b then "'true'" else "'false'", []⟩
  | _, some bind => ⟨o.conversion.placeholder, [bind]⟩
  | _, none => ⟨"null", []⟩

/-- The comparison in SQL. A document without the value gives null, and one that cannot be converted
is an error. -/
def render (column : String) (c : Comparison) : Fragment :=
  let right := operandFragment c.operand
  ⟨"JSON_VALUE(" ++ quoteIdentifier column ++ ", '" ++ c.path.singleton false ++ "'" ++
      (match c.returningType? with
        | some type => " RETURNING " ++ type
        | none => "") ++
      " ERROR ON ERROR NULL ON EMPTY) " ++ c.op.sql ++ " " ++ right.sql,
    right.binds⟩

end Comparison

end DocFilter
