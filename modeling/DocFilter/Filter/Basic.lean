import DocFilter.Filter.Condition
import DocFilter.Json.Reader
import DocFilter.Restriction.Comparison
import DocFilter.Restriction.Keys
import DocFilter.Restriction.Spatial
import DocFilter.Restriction.TextSearch
import DocFilter.Sort.Reader

/-!
# Filters

A filter is read from a JSON object. Its members are formulas, restrictions that stand beside the
formulas in a statement, a sort order, and members that are passed over. The members that restrict
may also stand together under `$query`.

## Main definitions

* `Clause`: what a member of a filter contributes.
* `Filter`: the contributions of all members by their kinds.
* `Filter.ofJson`: the filter that a document is.
-/

namespace DocFilter

/-- What a member of a filter contributes. -/
inductive Clause where
  | formula (f : Formula)
  | keys (keys : List Bind)
  | comparisons (cs : List Comparison)
  | spatial (s : Spatial)
  | textSearch (t : TextSearch)
  | sort (s : SortSpec)

/-- A filter that has been read. -/
structure Filter where
  /-- What a document has to satisfy, all together. -/
  conditions : List Condition
  /-- The keys to which documents are restricted, or none. -/
  keys : List Bind
  comparisons : List Comparison
  spatial : List Spatial
  textSearches : List TextSearch
  sort : Option SortSpec
  /-- Whether only modern engines understand the conditions. -/
  requiresModern : Bool

/-! ### Members -/

namespace Clause

/-- An error if a key that may be given once has been given before. -/
def once (earlier : List String) (key : String) : Except Error Unit :=
  if key ∈ earlier then .error (.multipleClauses key) else .ok ()

/-- The restriction beside the formulas that a field makes if its object has a spatial or text
operator, which has to stand there alone. -/
def readSide? (key : String) (value : Json) : Option (Except Error Clause) :=
  match value with
  | .object [(operator, operand)] =>
    match Keyword.ofKey? operator with
    | some (.spatial relation) =>
      some (do return spatial (← Spatial.read (← Path.ofText key) relation operand))
    | some .contains =>
      some (do return textSearch (← TextSearch.read (← Path.ofText key) operand))
    | _ => none
  | _ => none

/-- A member that restricts documents. -/
def read (earlier : List String) (key : String) (value : Json) : Except Error Clause :=
  match Keyword.ofKey? key with
  | some .id => do
    once earlier key
    return keys (← readKeys value)
  | some .sqlJson => do
    once earlier key
    return comparisons (← Comparison.readAll value)
  | some _ => (Formula.read .top key value).map formula
  | none =>
    if isDollarKey key then .error (.unknownOperator key)
    else (readSide? key value).getD ((Formula.read .top key value).map formula)

/-- The members that restrict documents, where the keys `earlier` have been read before. -/
def readBody (earlier : List String) : List (String × Json) → Except Error (List Clause)
  | [] => .ok []
  | (key, value) :: members => do
    let clause ← read earlier key value
    return clause :: (← readBody (key :: earlier) members)

/-- The contributions of one member of a document. Beside `$query` only a sort order and the members
that are passed over may stand. -/
def readOuter (hasQuery : Bool) (earlier : List String) (key : String) (value : Json) :
    Except Error (List Clause) :=
  match Keyword.ofKey? key with
  | some .query => do readBody [] (← value.expectMembers key)
  | some .orderBy => do
    once earlier key
    return [sort (← SortSpec.read value)]
  | some .envelope => .ok []
  | _ =>
    if hasQuery then .error (.mixedQueryEnvelope key)
    else (read earlier key value).map ([·])

/-- The members of a document, where the keys `earlier` have been read before. -/
def readDocument (hasQuery : Bool) (earlier : List String) :
    List (String × Json) → Except Error (List Clause)
  | [] => .ok []
  | (key, value) :: members => do
    let clauses ← readOuter hasQuery earlier key value
    return clauses ++ (← readDocument hasQuery (key :: earlier) members)

/-! ### Kinds of contributions -/

/-- The formula that a clause is. -/
def formula? : Clause → Option Formula
  | formula f => some f
  | _ => none

/-- The keys that a clause asks for. -/
def keysOf : Clause → List Bind
  | keys ks => ks
  | _ => []

/-- The comparisons that a clause makes outside of the expression. -/
def comparisonsOf : Clause → List Comparison
  | comparisons cs => cs
  | _ => []

/-- The spatial restriction that a clause is. -/
def spatial? : Clause → Option Spatial
  | spatial s => some s
  | _ => none

/-- The search for words that a clause is. -/
def textSearch? : Clause → Option TextSearch
  | textSearch t => some t
  | _ => none

/-- The sort order that a clause is. -/
def sort? : Clause → Option SortSpec
  | sort s => some s
  | _ => none

end Clause

/-! ### Filters -/

namespace Filter

/-- The filter of some contributions. -/
def ofClauses (clauses : List Clause) : Filter :=
  let formulas := clauses.filterMap Clause.formula?
  { conditions := Formula.lowerAll .root formulas
    keys := clauses.flatMap Clause.keysOf
    comparisons := clauses.flatMap Clause.comparisonsOf
    spatial := clauses.filterMap Clause.spatial?
    textSearches := clauses.filterMap Clause.textSearch?
    sort := clauses.findSome? Clause.sort?
    requiresModern := formulas.any Formula.requiresModern }

/-- How many members have a key. -/
def countKey (key : String) (members : List (String × Json)) : Nat :=
  members.countP fun (k, _) => k = key

/-- The filter that a document is. -/
def ofJson (document : Json) : Except Error Filter := do
  let members ← document.expectMembers "filter"
  let queries := countKey "$query" members
  if 1 < queries then throw (.multipleClauses "$query")
  return ofClauses (← Clause.readDocument (queries = 1) [] members)

/-- The filter that a text encoded in UTF-8 is. -/
def ofBytes (bytes : ByteArray) : Except Error Filter := do
  let some document := Json.ofBytes? bytes | throw .invalidJson
  ofJson document

/-- Whether the conditions leave every document. -/
def matchesAll (f : Filter) : Bool :=
  f.conditions.isEmpty

/-- The operands of the conditions, in order. -/
def operands (f : Filter) : List Operand :=
  Condition.operands f.conditions

end Filter

end DocFilter
