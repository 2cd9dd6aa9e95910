/-!
# Keywords of the filter language

Every key of a filter that starts with `$` is a keyword or an error. This module lists the keywords
with their roles.

## Main definitions

* `Operator`, `Modifier`, `SpatialRelation`: the three families of keywords for a field.
* `Keyword`: the roles of keywords.
* `Keyword.ofKey?`: the role of a key.
-/

namespace DocFilter

/-- An operator that compares the values of a field with operands. -/
inductive Operator where
  | eq | ne | gt | gte | lt | lte
  | oneOf | noneOf | all
  | present
  | between
  | startsWith | regex | like | hasSubstring
deriving DecidableEq, Repr

namespace Operator

/-- The name of an operator in a filter. -/
def keyword : Operator → String
  | eq => "$eq"
  | ne => "$ne"
  | gt => "$gt"
  | gte => "$gte"
  | lt => "$lt"
  | lte => "$lte"
  | oneOf => "$in"
  | noneOf => "$nin"
  | all => "$all"
  | present => "$exists"
  | between => "$between"
  | startsWith => "$startsWith"
  | regex => "$regex"
  | like => "$like"
  | hasSubstring => "$hasSubstring"

/-- The operators that only modern engines understand. -/
def requiresModern : Operator → Bool
  | like => true
  | hasSubstring => true
  | _ => false

/-- The operators whose operand is a string. -/
def requiresString : Operator → Bool
  | startsWith => true
  | regex => true
  | like => true
  | hasSubstring => true
  | _ => false

end Operator

/-- A conversion of the values of a field before they are compared. -/
inductive Modifier where
  | abs | ceiling | floor | double | number
  | string | upper | lower | length
  | type | size | boolean
  | date | timestamp
deriving DecidableEq, Repr

namespace Modifier

/-- The name of a modifier, in filters and in paths of SQL/JSON. -/
def name : Modifier → String
  | abs => "abs"
  | ceiling => "ceiling"
  | floor => "floor"
  | double => "double"
  | number => "number"
  | string => "string"
  | upper => "upper"
  | lower => "lower"
  | length => "length"
  | type => "type"
  | size => "size"
  | boolean => "boolean"
  | date => "date"
  | timestamp => "timestamp"

/-- The name of a modifier in a filter. -/
def keyword (m : Modifier) : String :=
  "$" ++ m.name

/-- The method that a path of SQL/JSON calls for the conversion. -/
def itemMethod (m : Modifier) : String :=
  m.name ++ "()"

/-- The modifiers that only modern engines understand. -/
def requiresModern : Modifier → Bool
  | boolean => true
  | length => true
  | _ => false

/-- The type of SQL to which a single value is converted, if there is one. -/
def returning? : Modifier → Option String
  | number => some "NUMBER"
  | string => some "VARCHAR2(4000)"
  | date => some "DATE"
  | timestamp => some "TIMESTAMP"
  | _ => none

end Modifier

/-- A relation between the geometry of a field and a given one. -/
inductive SpatialRelation where
  | near | within | intersects
deriving DecidableEq, Repr

namespace SpatialRelation

/-- The name of a spatial relation in a filter. -/
def keyword : SpatialRelation → String
  | near => "$near"
  | within => "$within"
  | intersects => "$intersects"

/-- The function of SQL that tests the relation. -/
def function : SpatialRelation → String
  | near => "SDO_WITHIN_DISTANCE"
  | within => "SDO_INSIDE"
  | intersects => "SDO_ANYINTERACT"

end SpatialRelation

/-- The role of a keyword. -/
inductive Keyword where
  | and | or | nor | not
  | query | orderBy | id | sqlJson
  /-- Members that other parts of a request use and a filter passes over. -/
  | envelope
  | contains
  | operator (op : Operator)
  | modifier (m : Modifier)
  | spatial (r : SpatialRelation)
deriving DecidableEq, Repr

namespace Keyword

/-- All keywords. `$instr` is another name for `$hasSubstring`. -/
def table : List (String × Keyword) :=
  [("$and", and), ("$or", or), ("$nor", nor), ("$not", not),
    ("$query", query), ("$orderby", orderBy), ("$id", id), ("$sqlJson", sqlJson),
    ("$project", envelope), ("$patch", envelope), ("$merge", envelope),
    ("$contains", contains),
    ("$eq", operator .eq), ("$ne", operator .ne), ("$gt", operator .gt),
    ("$gte", operator .gte), ("$lt", operator .lt), ("$lte", operator .lte),
    ("$in", operator .oneOf), ("$nin", operator .noneOf), ("$all", operator .all),
    ("$exists", operator .present), ("$between", operator .between),
    ("$startsWith", operator .startsWith), ("$regex", operator .regex),
    ("$like", operator .like), ("$hasSubstring", operator .hasSubstring),
    ("$instr", operator .hasSubstring),
    ("$abs", modifier .abs), ("$ceiling", modifier .ceiling), ("$floor", modifier .floor),
    ("$double", modifier .double), ("$number", modifier .number),
    ("$string", modifier .string), ("$upper", modifier .upper), ("$lower", modifier .lower),
    ("$length", modifier .length), ("$type", modifier .type), ("$size", modifier .size),
    ("$boolean", modifier .boolean), ("$date", modifier .date),
    ("$timestamp", modifier .timestamp),
    ("$near", spatial .near), ("$within", spatial .within),
    ("$intersects", spatial .intersects)]

/-- The role of a key, if it is a keyword. -/
def ofKey? (key : String) : Option Keyword :=
  table.lookup key

/-- The keywords that join whole filters. -/
def isConnective : Keyword → Bool
  | and => true
  | or => true
  | nor => true
  | _ => false

end Keyword

/-- Whether a key is written as a keyword, whether or not it is one. -/
def isDollarKey (key : String) : Bool :=
  key.toList.head? == some '$'

end DocFilter
