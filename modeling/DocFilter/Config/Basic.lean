import DocFilter.Filter.Expression
import DocFilter.Path.Reader
import DocFilter.Sort.Basic

/-!
# Configurations

A configuration describes the table that holds the documents: its columns, where the key of a
document stands inside it, and what the engine understands.

## Main definitions

* `Config`: the configurations, with the usual values.
* `Config.idPath`: the path to the key inside a document.
* `Config.validate`: whether statements can be written for a configuration.
-/

namespace DocFilter

/-- Where the key of a document stands inside it, and whether the key column holds it. -/
structure EmbeddedId where
  path : String := "_id"
  materialized : Bool := false
deriving DecidableEq, Repr

/-- A description of the table that holds the documents. -/
structure Config where
  contentColumn : String := "JSON_DOCUMENT"
  keyColumn : String := "ID"
  keyType : KeyType := .varchar
  embeddedId : EmbeddedId := {}
  features : Features := .modern
  /-- Whether `$sqlJson` is restricted to comparisons. It always is; the flag is only kept. -/
  restrictedSqlJson : Bool := true
  /-- Whether the key column only serves to sort by its own type. -/
  strictSortTypes : Bool := true
deriving DecidableEq, Repr

namespace Config

/-! ### Changes -/

/-- The configuration with another column for the documents. -/
def withContentColumn (c : Config) (column : String) : Config :=
  { c with contentColumn := column }

/-- The configuration with another column for the keys, and its type. -/
def withKeyColumn (c : Config) (column : String) (type : KeyType) : Config :=
  { c with keyColumn := column, keyType := type }

/-- The configuration in which the key column holds the value at `path`. -/
def withMaterializedId (c : Config) (path : String) : Config :=
  { c with embeddedId := ⟨path, true⟩ }

/-- The configuration for engines of another level. -/
def withFeatures (c : Config) (features : Features) : Config :=
  { c with features := features }

/-- The configuration in which the key column is used for sorting by its own type only, or
always. -/
def withStrictSortTypes (c : Config) (strict : Bool) : Config :=
  { c with strictSortTypes := strict }

/-! ### Validity -/

/-- Whether a name can stand between double quotes in SQL. -/
def isIdentifier (name : String) : Bool :=
  !name.isEmpty && !name.toList.contains '"'

/-- The path to the key inside a document, which has to lead to one value at most. -/
def idPath (c : Config) : Except Error Path := do
  let path ← (Path.ofText c.embeddedId.path).mapError fun e =>
    .invalidConfig ("embedded_id.path: " ++ e.message)
  if path.isSingleton then return path
  else throw (.invalidConfig "embedded_id.path must be a singleton path")

/-- The error for a column without a proper name. -/
def badColumn (name : String) : Error :=
  .invalidConfig (name ++ " must be a non-empty identifier without double quotes")

/-- Whether statements can be written for a configuration. -/
def validate (c : Config) : Except Error Unit := do
  if !isIdentifier c.contentColumn then throw (badColumn "content_column")
  if !isIdentifier c.keyColumn then throw (badColumn "key_column")
  let _ ← c.idPath

end Config

end DocFilter
