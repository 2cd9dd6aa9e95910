import DocFilter.Json.Numeral

/-!
# JSON documents

A document as its text gives it: the members of an object keep their order and may repeat a name,
and numbers keep their digits.

## Main definitions

* `Json`: the documents.
* `Json.kind`: what a document is called in an error message.
* `Json.isScalar`: whether a document has no parts.
-/

namespace DocFilter

/-- A JSON document. Objects are lists of members in the order of the text. -/
inductive Json where
  | null
  | bool (b : Bool)
  | number (n : Numeral)
  | string (s : String)
  | array (items : List Json)
  | object (members : List (String × Json))
deriving Inhabited

namespace Json

/-- The kind of a document, as error messages name it. -/
def kind : Json → String
  | null => "null"
  | bool _ => "boolean"
  | number _ => "number"
  | string _ => "string"
  | array _ => "array"
  | object _ => "object"

/-- Whether a document is neither an array nor an object. -/
def isScalar : Json → Bool
  | array _ => false
  | object _ => false
  | _ => true

end Json

end DocFilter
