import DocFilter.Json.Basic
import DocFilter.Text.Hex

/-!
# Reading JSON

A document is read from the characters of its text. Beyond the grammar of JSON there are two
rules. Arrays and objects nest at most 127 deep. And an object whose first name is `numberKey`
stands for a number: its one value is a string that holds a numeral.

## Main definitions

* `Json.readString`: the characters of a string behind its opening quote.
* `Json.readNested`, `Json.readValue`: the document at the start of a text.
* `Json.ofText?`, `Json.ofBytes?`: the document that a text, or its encoding in UTF-8, is.
-/

namespace DocFilter.Json

/-- How deep arrays and objects may nest. -/
def maxDepth : Nat := 127

/-- The name that makes an object stand for a number when it is the first one. -/
def numberKey : String := "$serde_json::private::Number"

/-- A text without the leading blanks that JSON allows between its tokens. -/
def skipSpace (cs : List Char) : List Char :=
  cs.dropWhile fun c => c == ' ' || c == '\t' || c == '\n' || c == '\r'

/-! ### Strings -/

/-- The character that an escape of one letter stands for. -/
def unescape? : Char → Option Char
  | '"' => some '"'
  | '\\' => some '\\'
  | '/' => some '/'
  | 'b' => some '\x08'
  | 'f' => some '\x0c'
  | 'n' => some '\n'
  | 'r' => some '\r'
  | 't' => some '\t'
  | _ => none

/-- Whether a code unit is the first half of a surrogate pair. -/
def isHighSurrogate (n : Nat) : Bool :=
  0xD800 ≤ n && n < 0xDC00

/-- Whether a code unit is the second half of a surrogate pair. -/
def isLowSurrogate (n : Nat) : Bool :=
  0xDC00 ≤ n && n < 0xE000

/-- The character of a surrogate pair. -/
def surrogatePair (high low : Nat) : Char :=
  Char.ofNat (0x10000 + (high - 0xD800) * 0x400 + (low - 0xDC00))

/-- The characters of a string behind its opening quote, and the text after the closing one. -/
def readString : List Char → Option (List Char × List Char)
  | [] => none
  | '"' :: rest => some ([], rest)
  | '\\' :: 'u' :: a :: b :: c :: d :: rest =>
    match Hex.value? [a, b, c, d] with
    | none => none
    | some unit =>
      if isHighSurrogate unit then
        match rest with
        | '\\' :: 'u' :: e :: f :: g :: h :: rest =>
          match Hex.value? [e, f, g, h] with
          | none => none
          | some low =>
            if isLowSurrogate low then
              (readString rest).map fun (s, rest) => (surrogatePair unit low :: s, rest)
            else none
        | _ => none
      else if isLowSurrogate unit then none
      else (readString rest).map fun (s, rest) => (Char.ofNat unit :: s, rest)
  | '\\' :: c :: rest =>
    match unescape? c with
    | some ch => (readString rest).map fun (s, rest) => (ch :: s, rest)
    | none => none
  | c :: rest =>
    if c.toNat < 0x20 ∨ c = '\\' then none
    else (readString rest).map fun (s, rest) => (c :: s, rest)

/-! ### Arrays and objects -/

/-- The items of a non-empty array up to its closing bracket. Every item takes a character, so
the length of the text bounds their number. -/
def readItems (value : List Char → Option (Json × List Char)) :
    Nat → List Char → Option (List Json × List Char)
  | 0, _ => none
  | bound + 1, cs => do
    let (item, cs) ← value cs
    match skipSpace cs with
    | ']' :: rest => return ([item], rest)
    | ',' :: rest =>
      let (items, rest) ← readItems value bound rest
      return (item :: items, rest)
    | _ => none

/-- A name and the colon behind it. -/
def readName (cs : List Char) : Option (String × List Char) :=
  match skipSpace cs with
  | '"' :: rest => do
    let (name, rest) ← readString rest
    match skipSpace rest with
    | ':' :: rest => return (String.ofList name, rest)
    | _ => none
  | _ => none

/-- The members of a non-empty object up to its closing brace. -/
def readMembers (value : List Char → Option (Json × List Char)) :
    Nat → List Char → Option (List (String × Json) × List Char)
  | 0, _ => none
  | bound + 1, cs => do
    let (name, cs) ← readName cs
    let (member, cs) ← value cs
    match skipSpace cs with
    | '\x7d' :: rest => return ([(name, member)], rest)
    | ',' :: rest =>
      let (members, rest) ← readMembers value bound rest
      return ((name, member) :: members, rest)
    | _ => none

/-- The document that the members of an object make: a number if the first name says so. -/
def ofMembers? : List (String × Json) → Option Json
  | (name, value) :: members =>
    if name = numberKey then
      match value, members with
      | string s, [] => (Numeral.ofText? s).map number
      | _, _ => none
    else some (object ((name, value) :: members))
  | [] => some (object [])

/-- What follows an opening bracket. -/
def readArray (value : List Char → Option (Json × List Char)) (cs : List Char) :
    Option (Json × List Char) :=
  match skipSpace cs with
  | ']' :: rest => some (array [], rest)
  | cs => do
    let (items, rest) ← readItems value cs.length cs
    return (array items, rest)

/-- What follows an opening brace. -/
def readObject (value : List Char → Option (Json × List Char)) (cs : List Char) :
    Option (Json × List Char) :=
  match skipSpace cs with
  | '\x7d' :: rest => some (object [], rest)
  | cs => do
    let (members, rest) ← readMembers value cs.length cs
    return (← ofMembers? members, rest)

/-! ### Documents -/

/-- A document that is not an array or an object, behind blanks. -/
def readScalar : List Char → Option (Json × List Char)
  | 'n' :: 'u' :: 'l' :: 'l' :: rest => some (null, rest)
  | 't' :: 'r' :: 'u' :: 'e' :: rest => some (bool true, rest)
  | 'f' :: 'a' :: 'l' :: 's' :: 'e' :: rest => some (bool false, rest)
  | '"' :: rest => (readString rest).map fun (s, rest) => (string (String.ofList s), rest)
  | cs => (Numeral.read cs).map fun (n, rest) => (number n, rest)

/-- The document at the start of a text, where arrays and objects nest at most `depth` deep, and
the text after it. What follows an opening brace is read by `braced`. -/
def readNested
    (braced : (List Char → Option (Json × List Char)) → List Char → Option (Json × List Char))
    (depth : Nat) (cs : List Char) : Option (Json × List Char) :=
  match skipSpace cs with
  | '[' :: rest =>
    match depth with
    | 0 => none
    | depth + 1 => readArray (readNested braced depth) rest
  | '\x7b' :: rest =>
    match depth with
    | 0 => none
    | depth + 1 => braced (readNested braced depth) rest
  | cs => readScalar cs

/-- The document at the start of a text, with all members of its objects, and the text after it. -/
def readValue (depth : Nat) (cs : List Char) : Option (Json × List Char) :=
  readNested readObject depth cs

/-- The document that `read` finds, if there are only blanks behind it. -/
def whole? (read : List Char → Option (Json × List Char)) (cs : List Char) : Option Json :=
  match read cs with
  | some (value, rest) => if (skipSpace rest).isEmpty then some value else none
  | none => none

/-- The document that some characters are, with nothing but blanks around it. -/
def ofChars? (cs : List Char) : Option Json :=
  whole? (readValue maxDepth) cs

/-- The document that a text is. -/
def ofText? (s : String) : Option Json :=
  ofChars? s.toList

/-- The document that a text encoded in UTF-8 is. -/
def ofBytes? (bytes : ByteArray) : Option Json :=
  String.fromUTF8? bytes >>= ofText?

end DocFilter.Json
