import DocFilter.Json.Reader

/-!
# Reading JSON into maps

Another way to read a document. The members of an object are entered one by one into a map that
keeps its names in the order in which they came: a name that is there already keeps its place and
takes the new value.

## Main definitions

* `Json.put`: enters a member.
* `Json.readMap`: what follows an opening brace.
* `Json.mapsOfBytes?`: the document that a text encoded in UTF-8 is.
-/

namespace DocFilter.Json

/-- Gives the name `key` the value `value`: at its place if the members have the name, and behind
them otherwise. -/
def put (key : String) (value : Json) : List (String × Json) → List (String × Json)
  | [] => [(key, value)]
  | (k, v) :: rest => if k = key then (k, value) :: rest else (k, v) :: put key value rest

/-- The members of an object from the value of `name` on up to the closing brace, entered into the
members `kept` that stand before them. -/
def readEntries (value : List Char → Option (Json × List Char)) :
    Nat → List (String × Json) → String → List Char → Option (List (String × Json) × List Char)
  | 0, _, _, _ => none
  | bound + 1, kept, name, cs => do
    let (member, cs) ← value cs
    match skipSpace cs with
    | '\x7d' :: rest => return (put name member kept, rest)
    | ',' :: rest =>
      let (next, rest) ← readName rest
      readEntries value bound (put name member kept) next rest
    | _ => none

/-- The number that the one value of an object stands for, up to the closing brace. -/
def readNumber (value : List Char → Option (Json × List Char)) (cs : List Char) :
    Option (Json × List Char) := do
  let (member, cs) ← value cs
  match member, skipSpace cs with
  | string s, '\x7d' :: rest => return (number (← Numeral.ofText? s), rest)
  | _, _ => none

/-- What follows an opening brace. The first name tells whether the object stands for a number. -/
def readMap (value : List Char → Option (Json × List Char)) (cs : List Char) :
    Option (Json × List Char) :=
  match skipSpace cs with
  | '\x7d' :: rest => some (object [], rest)
  | cs => do
    let (first, rest) ← readName cs
    if first = numberKey then readNumber value rest
    else
      let (members, rest) ← readEntries value cs.length [] first rest
      return (object members, rest)

/-- The document at the start of a text, with its objects read into maps, and the text after it. -/
def readMaps (depth : Nat) (cs : List Char) : Option (Json × List Char) :=
  readNested readMap depth cs

/-- The document that a text encoded in UTF-8 is, with its objects read into maps. -/
def mapsOfBytes? (bytes : ByteArray) : Option Json :=
  String.fromUTF8? bytes >>= fun s => whole? (readMaps maxDepth) s.toList

end DocFilter.Json
