import DocFilter.Keyword
import DocFilter.Operand

/-!
# Tests of a field

An operator of a filter with its operand becomes one or two tests. A test compares the values of a
field, converted by a modifier if there is one, with operands, and may be negated. The operators
that only differ by a negation share a relation.

## Main definitions

* `Relation`: how values are compared.
* `Test`: a comparison with operands.
* `Test.ofOperator`: the tests of an operator with its operand.
-/

namespace DocFilter

/-- How the values of a field are compared with operands. -/
inductive Relation where
  | eq | gt | gte | lt | lte
  /-- Some value equals one of the operands. -/
  | oneOf
  /-- Every operand equals some value. -/
  | all
  /-- There is a value; no operands. -/
  | present
  | startsWith | regex | like | hasSubstring
deriving DecidableEq, Repr

namespace Relation

/-- The token of the relation in the expression language of SQL/JSON. -/
def token : Relation → String
  | eq => "=="
  | oneOf => "=="
  | all => "=="
  | gt => ">"
  | gte => ">="
  | lt => "<"
  | lte => "<="
  | present => "exists"
  | startsWith => "starts with"
  | regex => "like_regex"
  | like => "like"
  | hasSubstring => "has substring"

/-- The name of the relation in a summary. -/
def label : Relation → String
  | eq => "eq"
  | gt => "gt"
  | gte => "gte"
  | lt => "lt"
  | lte => "lte"
  | oneOf => "in"
  | all => "all"
  | present => "exists"
  | startsWith => "startsWith"
  | regex => "regex"
  | like => "like"
  | hasSubstring => "hasSubstring"

/-- The relations that only modern engines understand. -/
def requiresModern : Relation → Bool
  | like => true
  | hasSubstring => true
  | _ => false

end Relation

/-- A comparison of the values of a field with operands. -/
structure Test where
  modifier : Option Modifier
  relation : Relation
  negated : Bool
  operands : List Operand
deriving DecidableEq, Repr

namespace Test

/-- The opposite test. -/
def negate (t : Test) : Test :=
  { t with negated := !t.negated }

/-- Whether only modern engines understand the test. -/
def requiresModern (t : Test) : Bool :=
  t.relation.requiresModern || t.modifier.any Modifier.requiresModern

/-- An operand in the sense of the modifier that it stands under. Null stays null. -/
def coerce (modifier : Option Modifier) (key : String) (o : Operand) : Except Error Operand :=
  if o.isNull then .ok o
  else
    match modifier with
    | some .date => o.toDate key
    | some .timestamp => o.toTimestamp key
    | _ => .ok o

/-- A test with a list of scalars. -/
def ofList (modifier : Option Modifier) (relation : Relation) (negated : Bool) (key : String)
    (value : Json) : Except Error (List Test) := do
  let items ← value.expectItems key
  if items.isEmpty then throw (.emptyContent key)
  let operands ← items.mapM (Operand.ofJson key)
  return [⟨modifier, relation, negated, ← operands.mapM (coerce modifier key)⟩]

/-- A test for the presence or absence of a value. -/
def ofPresence (modifier : Option Modifier) (key : String) (value : Json) :
    Except Error (List Test) := do
  let wanted ← Operand.ofJson key value
  return [⟨modifier, .present, !wanted.isTruthy, []⟩]

/-- The tests against the bounds of an interval that are not null. -/
def ofBounds (modifier : Option Modifier) (key : String) (value : Json) :
    Except Error (List Test) := do
  let [low, high] ← value.expectItems key
    | throw (.invalidLiteral key "expected exactly two bounds")
  let low ← Operand.ofJson key low
  let high ← Operand.ofJson key high
  if low.isNull && high.isNull then throw (.invalidLiteral key "both bounds are null")
  let lower ← if low.isNull then pure [] else
    (coerce modifier key low).map fun o => [⟨modifier, .gte, false, [o]⟩]
  let upper ← if high.isNull then pure [] else
    (coerce modifier key high).map fun o => [⟨modifier, .lte, false, [o]⟩]
  return lower ++ upper

/-- A test with one scalar. -/
def ofScalar (modifier : Option Modifier) (relation : Relation) (negated : Bool) (key : String)
    (value : Json) : Except Error (List Test) := do
  let operand ← Operand.ofJson key value
  return [⟨modifier, relation, negated, [← coerce modifier key operand]⟩]

/-- A test with one string. -/
def ofString (modifier : Option Modifier) (relation : Relation) (key : String) (value : Json) :
    Except Error (List Test) := do
  let operand ← Operand.ofJson key value
  let _ ← value.expectString key
  return [⟨modifier, relation, false, [← coerce modifier key operand]⟩]

/-- The tests of an operator with its operand, under a modifier if there is one. Errors name the
key that the operand stands under. -/
def ofOperator (modifier : Option Modifier) (op : Operator) (key : String) (value : Json) :
    Except Error (List Test) :=
  match op with
  | .eq => ofScalar modifier .eq false key value
  | .ne => ofScalar modifier .eq true key value
  | .gt => ofScalar modifier .gt false key value
  | .gte => ofScalar modifier .gte false key value
  | .lt => ofScalar modifier .lt false key value
  | .lte => ofScalar modifier .lte false key value
  | .oneOf => ofList modifier .oneOf false key value
  | .noneOf => ofList modifier .oneOf true key value
  | .all => ofList modifier .all false key value
  | .present => ofPresence modifier key value
  | .between => ofBounds modifier key value
  | .startsWith => ofString modifier .startsWith key value
  | .regex => ofString modifier .regex key value
  | .like => ofString modifier .like key value
  | .hasSubstring => ofString modifier .hasSubstring key value

end Test

end DocFilter
