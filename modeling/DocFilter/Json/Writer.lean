import DocFilter.Json.Basic
import DocFilter.Text.Hex

/-!
# Writing JSON

The compact text of a document: no blanks, members in order with their repetitions, numerals in
their normal form. In strings, quotes, backslashes and the characters below U+0020 are escaped and
all others stand for themselves.

## Main definitions

* `Json.escape`, `Json.quote`: a string with its escapes, without and with its quotes.
* `Json.write`: the text of a document.
-/

namespace DocFilter.Json

/-- One character of a string, escaped where JSON asks for it. -/
def escapeChar (c : Char) : List Char :=
  match c with
  | '"' => ['\\', '"']
  | '\\' => ['\\', '\\']
  | '\x08' => ['\\', 'b']
  | '\x0c' => ['\\', 'f']
  | '\n' => ['\\', 'n']
  | '\r' => ['\\', 'r']
  | '\t' => ['\\', 't']
  | c => if c.toNat < 0x20 then '\\' :: 'u' :: Hex.lower c.toNat else [c]

/-- The characters of a string, escaped one by one. -/
def escape (cs : List Char) : List Char :=
  cs.flatMap escapeChar

/-- A string between its quotes. -/
def quote (s : String) : String :=
  "\"" ++ String.ofList (escape s.toList) ++ "\""

mutual

/-- The compact text of a document. -/
def write : Json → String
  | null => "null"
  | bool b => if b then "true" else "false"
  | number n => n.text
  | string s => quote s
  | array [] => "[]"
  | array (item :: items) => "[" ++ item.write ++ writeItems items
  | object [] => "\x7b\x7d"
  | object ((key, value) :: members) =>
    "\x7b" ++ quote key ++ ":" ++ value.write ++ writeMembers members

/-- The items after the first one, and the closing bracket. -/
def writeItems : List Json → String
  | [] => "]"
  | item :: items => "," ++ item.write ++ writeItems items

/-- The members after the first one, and the closing brace. -/
def writeMembers : List (String × Json) → String
  | [] => "\x7d"
  | (key, value) :: members =>
    "," ++ quote key ++ ":" ++ value.write ++ writeMembers members

end

end DocFilter.Json
