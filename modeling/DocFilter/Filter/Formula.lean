import DocFilter.Filter.Test
import DocFilter.Path.Reader

/-!
# Formulas

The part of a filter that selects documents by their content is a formula, read member by member
from the filter. A member is a connective over filters, a negated filter, or a field with what is
demanded of its values. If the object of a field names fields itself, its members are demanded
together of a single value of the field.

## Main definitions

* `Formula`: the formulas, shaped like the document they are read from.
* `Demand`: what is demanded of the values of a field.
* `Formula.read`: the formula of a member.
-/

namespace DocFilter

/-- A connective over a list of filters. -/
inductive Connective where
  | and | or | nor
deriving DecidableEq, Repr

/-- What is demanded of the values of a field. -/
inductive Demand where
  /-- The test holds. -/
  | test (t : Test)
  /-- Not all of the tests hold. -/
  | negation (tests : List Test)
deriving DecidableEq, Repr

/-- A condition on documents. A list of formulas is a conjunction. -/
inductive Formula where
  /-- All demands on the values at `path`. -/
  | field (path : Path) (demands : List Demand)
  /-- Some value at `path` satisfies the body. -/
  | within (path : Path) (body : List Formula)
  | junction (connective : Connective) (items : List (List Formula))
  | negation (body : List Formula)

namespace Demand

/-- The tests of a demand as they were read. -/
def tests : Demand → List Test
  | test t => [t]
  | negation ts => ts

end Demand

/-! ### Demands on a field -/

/-- Whether a filter is the whole document or a part of it. -/
inductive Scope where
  | top | nested
deriving DecidableEq, Repr

/-- Where the operators of a field stand. -/
structure Place where
  scope : Scope
  field : String
  /-- Whether they stand under `$not`. -/
  negated : Bool

/-- The error for a key that is no operator where one is expected, under a modifier if it is
given. -/
def Place.refusal (place : Place) (modifier : Option Modifier) (key : String) : Error :=
  match Keyword.ofKey? key, modifier with
  | some .not, some outer => .nestedModifier key (if place.negated then "$not" else outer.keyword)
  | some .not, none => .nestedModifier key "$not"
  | some (.modifier _), some outer => .nestedModifier key outer.keyword
  | some (.spatial _), _ => sideRefusal
  | some .contains, _ => sideRefusal
  | some _, _ => .misplacedOperator key
  | none, _ => if isDollarKey key then .unknownOperator key else .mixedDownscope place.field
where
  sideRefusal : Error :=
    match place.scope with
    | .nested => .notTopLevel key
    | .top => .misplacedOperator key

namespace Test

/-- The tests of an operator under a modifier. -/
def readModified (place : Place) (m : Modifier) (key : String) (value : Json) :
    Except Error (List Test) :=
  match Keyword.ofKey? key with
  | some (.operator op) => ofOperator (some m) op key value
  | _ => .error (place.refusal (some m) key)

/-- The tests of an operator, or of a modifier with the operators under it. A scalar under a
modifier is what the value has to equal. -/
def read (place : Place) (key : String) (value : Json) : Except Error (List Test) :=
  match Keyword.ofKey? key with
  | some (.operator op) => ofOperator none op key value
  | some (.modifier m) =>
    match value with
    | .object [] => .error (.emptyContent key)
    | .object members =>
      (members.mapM fun (k, v) => readModified place m k v).map List.flatten
    | .array items => .error ((Json.array items).mismatch key "object or scalar")
    | scalar => ofOperator (some m) .eq key scalar
  | _ => .error (place.refusal none key)

end Test

namespace Demand

/-- The demands of one member of the object of a field. -/
def read (scope : Scope) (field key : String) (value : Json) : Except Error (List Demand) :=
  match Keyword.ofKey? key with
  | some .not => do
    let members ← value.expectSomeMembers key
    let tests ← members.mapM fun (k, v) => Test.read ⟨scope, field, true⟩ k v
    return [negation tests.flatten]
  | _ => (Test.read ⟨scope, field, false⟩ key value).map (·.map test)

/-- The demands of the object of a field. -/
def readAll (scope : Scope) (field : String) (members : List (String × Json)) :
    Except Error (List Demand) :=
  (members.mapM fun (k, v) => read scope field k v).map List.flatten

end Demand

/-! ### Members of a filter -/

/-- What a member of a filter is, by its key. -/
inductive Role where
  | connective (c : Connective)
  | negation
  | field (path : Path)
deriving DecidableEq, Repr

/-- The role of a key among the formulas. The keywords for a whole document have none. -/
def Role.ofKey (key : String) : Except Error Role :=
  match Keyword.ofKey? key with
  | some .and => .ok (.connective .and)
  | some .or => .ok (.connective .or)
  | some .nor => .ok (.connective .nor)
  | some .not => .ok .negation
  | some .id => .error (.notTopLevel key)
  | some .sqlJson => .error (.notTopLevel key)
  | some .query => .error (.notTopLevel key)
  | some .orderBy => .error (.notTopLevel key)
  | some .envelope => .error (.notTopLevel key)
  | some _ => .error (.misplacedOperator key)
  | none => if isDollarKey key then .error (.unknownOperator key) else (Path.ofText key).map .field

/-- Whether a key names a field or a connective, rather than an operator. -/
def isFieldKey (key : String) : Bool :=
  (Keyword.ofKey? key).all Keyword.isConnective

/-- A key that looks like a keyword and is none. -/
def isUnknownKey (key : String) : Bool :=
  (Keyword.ofKey? key).isNone && isDollarKey key

/-- Whether the object of a field names fields instead of operators. It must not do both. -/
def isDownscope (field : String) (members : List (String × Json)) : Except Error Bool :=
  match members.find? fun (key, _) => isUnknownKey key with
  | some (key, _) => .error (.unknownOperator key)
  | none =>
    if members.all fun (key, _) => isFieldKey key then .ok true
    else if members.any fun (key, _) => isFieldKey key then .error (.mixedDownscope field)
    else .ok false

namespace Formula

mutual

/-- The formula of a member of a filter. -/
def read (scope : Scope) (key : String) : Json → Except Error Formula
  | .array items => do
    match ← Role.ofKey key with
    | .connective c =>
      if items.isEmpty then throw (.emptyContent key)
      return junction c (← readItems key items)
    | .negation => throw ((Json.array items).mismatch key "object")
    | .field path =>
      return field path ((← Test.ofOperator none .all key (.array items)).map .test)
  | .object members => do
    match ← Role.ofKey key with
    | .connective _ => throw ((Json.object members).mismatch key "array")
    | .negation =>
      if members.isEmpty then throw (.emptyContent key)
      return negation (← readMembers members)
    | .field path =>
      if members.isEmpty then throw (.emptyContent key)
      if ← isDownscope key members then return within path (← readMembers members)
      else return field path (← Demand.readAll scope key members)
  | scalar => do
    match ← Role.ofKey key with
    | .connective _ => throw (scalar.mismatch key "array")
    | .negation => throw (scalar.mismatch key "object")
    | .field path => return field path ((← Test.ofOperator none .eq key scalar).map .test)

/-- The formulas of the members of a filter that is part of another. -/
def readMembers : List (String × Json) → Except Error (List Formula)
  | [] => .ok []
  | (key, value) :: members => do
    let formula ← read .nested key value
    return formula :: (← readMembers members)

/-- The filters under a connective. -/
def readItems (key : String) : List Json → Except Error (List (List Formula))
  | [] => .ok []
  | .object members :: items => do
    if members.isEmpty then throw (.emptyContent key)
    let body ← readMembers members
    return body :: (← readItems key items)
  | other :: _ => .error (other.mismatch key "object")

end

/-! ### Tests in a formula -/

mutual

/-- The tests of a formula as they were read, in order. -/
def tests : Formula → List Test
  | field _ demands => demands.flatMap Demand.tests
  | within _ body => testsOfAll body
  | junction _ items => testsOfItems items
  | negation body => testsOfAll body

/-- The tests of formulas in a row. -/
def testsOfAll : List Formula → List Test
  | [] => []
  | f :: fs => f.tests ++ testsOfAll fs

/-- The tests of the items of a junction. -/
def testsOfItems : List (List Formula) → List Test
  | [] => []
  | fs :: rest => testsOfAll fs ++ testsOfItems rest

end

/-- Whether only modern engines understand the formula. -/
def requiresModern (f : Formula) : Bool :=
  f.tests.any Test.requiresModern

end Formula

end DocFilter
