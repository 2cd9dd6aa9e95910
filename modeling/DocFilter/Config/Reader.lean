import DocFilter.Config.Basic
import DocFilter.Toml.Reader

/-!
# Reading configurations

A configuration is read from a settings file. Settings that are missing have their usual values,
and unknown ones are passed over.

## Main definitions

* `Config.ofToml?`: the configuration of some settings.
* `Config.ofText`: the valid configuration of a settings file.
-/

namespace DocFilter

namespace Toml

/-- The string that a setting is. -/
def asString? : Toml → Option String
  | string s => some s
  | _ => none

/-- The boolean that a setting is. -/
def asBool? : Toml → Option Bool
  | boolean b => some b
  | _ => none

/-- The name of a choice: a string, or the only key of a table, with an empty table behind it. -/
def asChoice? : Toml → Option String
  | string s => some s
  | table _ [(name, table _ [])] => some name
  | _ => none

/-- The setting of a key, or `default` without one. The outer `none` is a setting that `read`
refuses. -/
def setting? {α : Type} (entries : List (String × Toml)) (key : String) (read : Toml → Option α)
    (default : α) : Option α :=
  match entries.lookup key with
  | some value => read value
  | none => some default

end Toml

/-- The type of a key column by its name, in small letters. -/
def KeyType.ofName? (name : String) : Option KeyType :=
  if name = "varchar" then some .varchar
  else if name = "number" then some .number
  else if name = "raw" then some .raw
  else none

/-- A level of engines by its name, in small letters. -/
def Features.ofName? (name : String) : Option Features :=
  if name = "legacy" then some .legacy
  else if name = "modern" then some .modern
  else none

/-- The place of the key in a document, with defaults for what a table leaves out. -/
def EmbeddedId.ofToml? : Toml → Option EmbeddedId
  | .table _ entries => do
    let path ← Toml.setting? entries "path" Toml.asString? "_id"
    let materialized ← Toml.setting? entries "materialized" Toml.asBool? false
    return ⟨path, materialized⟩
  | _ => none

namespace Config

/-- The configuration of some settings, if each of them has a value that it can have. -/
def ofToml? (entries : List (String × Toml)) : Option Config := do
  let usual : Config := {}
  let contentColumn ←
    Toml.setting? entries "content_column" Toml.asString? usual.contentColumn
  let keyColumn ← Toml.setting? entries "key_column" Toml.asString? usual.keyColumn
  let keyType ← Toml.setting? entries "key_type"
    (fun v => v.asChoice? >>= KeyType.ofName?) usual.keyType
  let embeddedId ← Toml.setting? entries "embedded_id" EmbeddedId.ofToml? usual.embeddedId
  let features ← Toml.setting? entries "sql_json"
    (fun v => v.asChoice? >>= Features.ofName?) usual.features
  let restrictedSqlJson ←
    Toml.setting? entries "restricted_sql_json" Toml.asBool? usual.restrictedSqlJson
  let strictSortTypes ←
    Toml.setting? entries "strict_order_by_types" Toml.asBool? usual.strictSortTypes
  return ⟨contentColumn, keyColumn, keyType, embeddedId, features, restrictedSqlJson,
    strictSortTypes⟩

/-- The valid configuration of a settings file. -/
def ofText (s : String) : Except Error Config := do
  let some config := Toml.ofText? s >>= ofToml? | throw .malformedConfig
  config.validate
  return config

end Config

end DocFilter
