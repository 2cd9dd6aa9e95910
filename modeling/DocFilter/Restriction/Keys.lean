import DocFilter.Sql.Fragment

/-!
# Restriction to keys

`$id` gives one key or a list of keys of documents. The key column is compared with them.

## Main definitions

* `readKeys`: the keys of a document under `$id`, without repetitions.
* `renderKeys`: the comparison of the key column.
-/

namespace DocFilter

/-- One key. -/
def readKey : Json → Except Error Bind
  | .string s => .ok (.text s)
  | .number n => .ok (.number n)
  | other => .error (other.mismatch "$id" "string or number")

/-- The keys in order; a repeated key keeps its first place. -/
def distinctKeys (keys : List Bind) : List Bind :=
  keys.foldl (fun seen key => if key ∈ seen then seen else seen ++ [key]) []

/-- The keys under `$id`. -/
def readKeys : Json → Except Error (List Bind)
  | .array [] => .error (.emptyContent "$id")
  | .array items => (items.mapM readKey).map distinctKeys
  | other => (readKey other).map ([·])

/-- The comparison of the key column with the keys, if there are any. -/
def renderKeys (column : String) (keys : List Bind) : Option Fragment :=
  match keys with
  | [] => none
  | [_] => some ⟨quoteIdentifier column ++ " = ?", keys⟩
  | _ =>
    some ⟨quoteIdentifier column ++ " in (" ++
      String.intercalate ", " (keys.map fun _ => "?") ++ ")", keys⟩

end DocFilter
