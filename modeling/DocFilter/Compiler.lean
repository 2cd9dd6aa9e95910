import DocFilter.Config.Basic
import DocFilter.Filter.Basic
import DocFilter.Json.Maps

/-!
# Compiling filters

A compiler writes the parts of a statement that select and order the documents of a filter in the
table of a configuration.

## Main definitions

* `Compiler`: a valid configuration, ready for use.
* `Compiled`: the parts of a statement.
* `Compiler.compile`: the parts of a statement for a filter.
* `Compiled.whereClause`: all restrictions as one.
* `Compiled.toJson`: the parts as a document.
-/

namespace DocFilter

/-- The parts of a statement that a filter gives. -/
structure Compiled where
  expression : Option Expression
  keys : List Bind
  keyClause : Option Fragment
  comparisons : List Fragment
  spatial : List Fragment
  textSearches : List Fragment
  /-- The list behind `ORDER BY`. -/
  orderBy : Option String
  requiresModern : Bool
  contentColumn : String
deriving DecidableEq, Repr

namespace Compiled

/-- The restrictions in the order of the statement. -/
def restrictions (c : Compiled) : List Fragment :=
  (c.expression.map (Expression.fragment c.contentColumn)).toList ++ c.keyClause.toList ++
    c.comparisons ++ c.spatial ++ c.textSearches

/-- All restrictions as one, unless there is none. -/
def whereClause (c : Compiled) : Option Fragment :=
  Fragment.join " AND " c.restrictions

/-- The values for the placeholders of all restrictions. -/
def binds (c : Compiled) : List Bind :=
  (c.whereClause.map Fragment.binds).getD []

end Compiled

/-! ### Compilers -/

/-- A configuration with the key column that sort orders may use. -/
structure Compiler where
  config : Config
  keyColumn : Option KeyColumn
deriving DecidableEq, Repr

namespace Compiler

/-- The compiler for a valid configuration. -/
def ofConfig (config : Config) : Except Error Compiler := do
  config.validate
  let path ← config.idPath
  let keyColumn := if config.embeddedId.materialized then
      some ⟨path, config.keyColumn, config.keyType⟩
    else none
  return ⟨config, keyColumn⟩

/-- The parts of a statement for a filter. -/
def compile (c : Compiler) (f : Filter) : Compiled :=
  let column := c.config.contentColumn
  { expression := Expression.ofConditions? c.config.features f.conditions
    keys := f.keys
    keyClause := renderKeys c.config.keyColumn f.keys
    comparisons := f.comparisons.map (Comparison.render column)
    spatial := f.spatial.map (Spatial.render column)
    textSearches := f.textSearches.map (TextSearch.render column)
    orderBy := f.sort.map (SortSpec.render column c.keyColumn c.config.strictSortTypes)
    requiresModern := f.requiresModern
    contentColumn := column }

/-- The parts of a statement for the filter that a document is. -/
def compileJson (c : Compiler) (document : Json) : Except Error Compiled :=
  (Filter.ofJson document).map c.compile

/-- The parts of a statement for the filter that a text encoded in UTF-8 is. -/
def compileBytes (c : Compiler) (bytes : ByteArray) : Except Error Compiled := do
  let some document := Json.ofBytes? bytes | throw .invalidJson
  c.compileJson document

/-- As `compileBytes`, where the objects of the document are read into maps. -/
def compileCollapsed (c : Compiler) (bytes : ByteArray) : Except Error Compiled := do
  let some document := Json.mapsOfBytes? bytes | throw .invalidJson
  c.compileJson document

end Compiler

/-! ### As documents -/

/-- A bound value as a scalar document. -/
def Bind.toJson : Bind → Json
  | number n => .number n
  | text s => .string s

/-- A piece of SQL with the values of its placeholders, as a document. -/
def Fragment.toJson (f : Fragment) : Json :=
  .object [("sql", .string f.sql), ("binds", .array (f.binds.map Bind.toJson))]

namespace Expression

/-- The values of the variables from number `n` on, with their names. -/
def namedValues (n : Nat) : List Passing → List Json
  | [] => []
  | p :: ps =>
    .object [("name", .string (variableName n)), ("value", p.value.toJson)] ::
      namedValues (n + 1) ps

/-- An expression with the values of its variables, as a document. -/
def toJson (e : Expression) : Json :=
  .object [("expression", .string e.text), ("binds", .array (namedValues 0 e.passings))]

end Expression

/-- An optional value as a document; without one it is null. -/
def Json.ofOption {α : Type} (f : α → Json) : Option α → Json
  | some a => f a
  | none => .null

/-- The parts of a statement as a document. -/
def Compiled.toJson (c : Compiled) : Json :=
  .object [
    ("json_exists", .ofOption Expression.toJson c.expression),
    ("keys", .array (c.keys.map Bind.toJson)),
    ("order_by", .ofOption .string c.orderBy),
    ("key_clause", .ofOption Fragment.toJson c.keyClause),
    ("sql_json", .array (c.comparisons.map Fragment.toJson)),
    ("spatial", .array (c.spatial.map Fragment.toJson)),
    ("text", .array (c.textSearches.map Fragment.toJson)),
    ("requires_modern_sql_json", .bool c.requiresModern),
    ("content_column", .string c.contentColumn)]

end DocFilter
