import DocFilter.Error
import DocFilter.Json.Basic

/-!
# Expected shapes

A filter says under many keys what kind of document has to stand there. These functions take a
document apart and report a document of another kind under the key.
-/

namespace DocFilter.Json

/-- The error for a document where another kind is expected. -/
def mismatch (key expected : String) (found : Json) : Error :=
  .typeMismatch key expected found.kind

/-- The members of an object. -/
def expectMembers (key : String) : Json → Except Error (List (String × Json))
  | object members => .ok members
  | other => .error (mismatch key "object" other)

/-- The members of an object that has some. -/
def expectSomeMembers (key : String) : Json → Except Error (List (String × Json))
  | object [] => .error (.emptyContent key)
  | object (m :: ms) => .ok (m :: ms)
  | other => .error (mismatch key "object" other)

/-- The items of an array. -/
def expectItems (key : String) : Json → Except Error (List Json)
  | array items => .ok items
  | other => .error (mismatch key "array" other)

/-- The string that a document is. -/
def expectString (key : String) : Json → Except Error String
  | string s => .ok s
  | other => .error (mismatch key "string" other)

/-- The number that a document is. -/
def expectNumber (key : String) : Json → Except Error Numeral
  | number n => .ok n
  | other => .error (mismatch key "number" other)

/-- The boolean that a document is. -/
def expectBool (key : String) : Json → Except Error Bool
  | bool b => .ok b
  | other => .error (mismatch key "boolean" other)

end DocFilter.Json
