import DocFilter.Text.Digit
import DocFilter.Text.Hex
import DocFilter.Toml.Basic

/-!
# Reading settings

A settings file is read line by line: blank lines, comments, headers of tables and assignments.
Lines end with a line feed, before which a carriage return may stand. A key has at most 79 parts,
and tables between braces nest at most 79 deep.

## Main definitions

* `Toml.readValue`: a value at the start of a text.
* `Toml.ofText?`: the settings of a file.
-/

namespace DocFilter.Toml

/-! ### Blanks and line ends -/

/-- A text without leading spaces and tabs. -/
def skipIndent (cs : List Char) : List Char :=
  cs.dropWhile fun c => c == ' ' || c == '\t'

/-- The text behind a line end. -/
def readNewline? : List Char → Option (List Char)
  | '\n' :: rest => some rest
  | '\r' :: '\n' :: rest => some rest
  | _ => none

/-- Whether a character may stand in a comment or literal string. -/
def isText (c : Char) : Bool :=
  c == '\t' || (0x20 ≤ c.toNat && c.toNat != 0x7F)

/-- The text behind the rest of a line: blanks and a comment. -/
def endLine? (cs : List Char) : Option (List Char) :=
  let cs := skipIndent cs
  let cs := match cs with
    | '#' :: rest => rest.dropWhile isText
    | cs => cs
  match cs with
  | [] => some []
  | cs => readNewline? cs

/-! ### Strings -/

/-- The character that an escape of one letter stands for. -/
def unescape? : Char → Option Char
  | 'b' => some '\x08'
  | 't' => some '\t'
  | 'n' => some '\n'
  | 'f' => some '\x0c'
  | 'r' => some '\r'
  | '"' => some '"'
  | '\\' => some '\\'
  | _ => none

/-- The character of an escape behind its backslash, and the text after it. -/
def readEscape? : List Char → Option (Char × List Char)
  | 'u' :: rest =>
    if 4 ≤ rest.length then do
      return (← Hex.scalar? (← Hex.value? (rest.take 4)), rest.drop 4)
    else none
  | 'U' :: rest =>
    if 8 ≤ rest.length then do
      return (← Hex.scalar? (← Hex.value? (rest.take 8)), rest.drop 8)
    else none
  | c :: rest => (unescape? c).map (·, rest)
  | [] => none

/-- The characters of a string between quotation marks, behind the opening one. The bound is the
length of the text. -/
def readBasic : Nat → List Char → Option (List Char × List Char)
  | 0, _ => none
  | bound + 1, cs =>
    match cs with
    | '"' :: rest => some ([], rest)
    | '\\' :: rest => do
      let (c, rest) ← readEscape? rest
      let (s, rest) ← readBasic bound rest
      return (c :: s, rest)
    | c :: rest =>
      if isText c then do
        let (s, rest) ← readBasic bound rest
        return (c :: s, rest)
      else none
    | [] => none

/-- The characters of a string between apostrophes, behind the opening one. -/
def readLiteral (cs : List Char) : Option (List Char × List Char) :=
  let s := cs.takeWhile fun c => c != '\'' && isText c
  match cs.drop s.length with
  | '\'' :: rest => some (s, rest)
  | _ => none

/-- The text behind the line end right after opening marks of a string of several lines. -/
def skipFirstNewline (cs : List Char) : List Char :=
  (readNewline? cs).getD cs

/-- The text behind blanks and line ends. -/
def skipLines : List Char → List Char
  | ' ' :: rest => skipLines rest
  | '\t' :: rest => skipLines rest
  | '\n' :: rest => skipLines rest
  | '\r' :: '\n' :: rest => skipLines rest
  | cs => cs

/-- The end of a string of several lines, behind the quotes at the start of a text: three quotes,
before which up to two more belong to the string. -/
def closing? (quote : Char) (cs : List Char) : Option (List Char × List Char) :=
  let run := cs.takeWhile (· == quote)
  if run.length < 3 then none
  else
    let inside := min (run.length - 3) 2
    some (List.replicate inside quote, cs.drop (inside + 3))

/-- The characters of a string of several lines between quotation marks, behind the opening marks.
A backslash at the end of a line joins it with the next text. -/
def readBasicLines : Nat → List Char → Option (List Char × List Char)
  | 0, _ => none
  | bound + 1, cs =>
    match closing? '"' cs with
    | some result => some result
    | none =>
      match cs with
      | '\\' :: rest =>
        match readNewline? (skipIndent rest) with
        | some rest => readBasicLines bound (skipLines rest)
        | none => do
          let (c, rest) ← readEscape? rest
          let (s, rest) ← readBasicLines bound rest
          return (c :: s, rest)
      | c :: rest =>
        match readNewline? (c :: rest) with
        | some rest => do
          let (s, rest) ← readBasicLines bound rest
          return ('\n' :: s, rest)
        | none =>
          if isText c then do
            let (s, rest) ← readBasicLines bound rest
            return (c :: s, rest)
          else none
      | [] => none

/-- The characters of a string of several lines between apostrophes, behind the opening marks. -/
def readLiteralLines : Nat → List Char → Option (List Char × List Char)
  | 0, _ => none
  | bound + 1, cs =>
    match closing? '\'' cs with
    | some result => some result
    | none =>
      match cs with
      | c :: rest =>
        match readNewline? (c :: rest) with
        | some rest => do
          let (s, rest) ← readLiteralLines bound rest
          return ('\n' :: s, rest)
        | none =>
          if isText c then do
            let (s, rest) ← readLiteralLines bound rest
            return (c :: s, rest)
          else none
      | [] => none

/-- A string of any form. -/
def readString : List Char → Option (List Char × List Char)
  | '"' :: '"' :: '"' :: rest => readBasicLines (rest.length + 1) (skipFirstNewline rest)
  | '\'' :: '\'' :: '\'' :: rest => readLiteralLines (rest.length + 1) (skipFirstNewline rest)
  | '"' :: rest => readBasic (rest.length + 1) rest
  | '\'' :: rest => readLiteral rest
  | _ => none

/-! ### Keys -/

/-- The characters of a key without quotes. -/
def isKeyChar (c : Char) : Bool :=
  c.isAlphanum || c == '_' || c == '-'

/-- One part of a key. -/
def readSimpleKey : List Char → Option (String × List Char)
  | '"' :: rest => (readBasic (rest.length + 1) rest).map fun (s, rest) => (String.ofList s, rest)
  | '\'' :: rest => (readLiteral rest).map fun (s, rest) => (String.ofList s, rest)
  | cs =>
    let name := cs.takeWhile isKeyChar
    if name.isEmpty then none else some (String.ofList name, cs.drop name.length)

/-- How many parts a key may have, and how deep tables between braces may nest. -/
def maxDepth : Nat := 79

/-- A key of at most so many parts, with dots between them, and the text after it. -/
def readParts : Nat → List Char → Option (List String × List Char)
  | 0, _ => none
  | parts + 1, cs => do
    let (name, cs) ← readSimpleKey (skipIndent cs)
    match skipIndent cs with
    | '.' :: rest =>
      let (names, rest) ← readParts parts rest
      return (name :: names, rest)
    | rest => return ([name], rest)

/-- The key at the start of a text, and the text after it. -/
def readKey (cs : List Char) : Option (List String × List Char) :=
  readParts maxDepth cs

/-! ### Values -/

/-- The digits of an integer in a base, with underscores between them. -/
def readDigits (base : Nat) : List Char → Option Nat
  | [] => none
  | cs =>
    if cs.head? = some '_' ∨ cs.getLast? = some '_' ∨ hasDoubleMark cs then none
    else (cs.filter (· != '_')).foldl (fun n c => do
      let d ← Hex.ofChar? c
      if d < base then return base * (← n) + d else none) (some 0)
where
  hasDoubleMark : List Char → Bool
    | '_' :: '_' :: _ => true
    | _ :: cs => hasDoubleMark cs
    | [] => false

/-- A decimal integer without its sign and without leading zeros. -/
def readDecimal (cs : List Char) : Option Nat :=
  match cs with
  | '0' :: _ :: _ => none
  | cs => readDigits 10 cs

/-- An integer of 64 bits. -/
def integerOf? (cs : List Char) : Option Int := do
  let n ← match cs with
    | '0' :: 'x' :: cs => (readDigits 16 cs).map Int.ofNat
    | '0' :: 'o' :: cs => (readDigits 8 cs).map Int.ofNat
    | '0' :: 'b' :: cs => (readDigits 2 cs).map Int.ofNat
    | '+' :: cs => (readDecimal cs).map Int.ofNat
    | '-' :: cs => (readDecimal cs).map fun n => -(n : Int)
    | cs => (readDecimal cs).map Int.ofNat
  if -0x8000000000000000 ≤ n ∧ n ≤ 0x7FFFFFFFFFFFFFFF then return n else none

/-- A value that is a word: a boolean or an integer. -/
def readWord (cs : List Char) : Option (Toml × List Char) :=
  let word := cs.takeWhile fun c => isKeyChar c || c == '+' || c == '.' || c == ':'
  let rest := cs.drop word.length
  if word = "true".toList then some (boolean true, rest)
  else if word = "false".toList then some (boolean false, rest)
  else (integerOf? word).map fun n => (integer n, rest)

/-- The assignments of a table between braces, up to its closing brace. Every assignment takes a
character, so the length of the text bounds their number. -/
def readPairs (value : List Char → Option (Toml × List Char)) :
    Nat → List (String × Toml) → List Char → Option (List (String × Toml) × List Char)
  | 0, _, _ => none
  | bound + 1, entries, cs => do
    let (keys, cs) ← readKey cs
    match cs with
    | '=' :: rest =>
      let (assigned, rest) ← value (skipIndent rest)
      let entries ← assign? assigned keys entries
      match skipIndent rest with
      | ',' :: rest => readPairs value bound entries rest
      | '\x7d' :: rest => return (entries, rest)
      | _ => none
    | _ => none

/-- What follows an opening brace. -/
def readTable (value : List Char → Option (Toml × List Char)) (cs : List Char) :
    Option (Toml × List Char) :=
  match skipIndent cs with
  | '\x7d' :: rest => some (table .inline [], rest)
  | cs => (readPairs value cs.length [] cs).map fun (entries, rest) => (table .inline entries, rest)

/-- The value at the start of a text, where tables between braces nest at most `depth` deep, and
the text after it. -/
def readValue (depth : Nat) (cs : List Char) : Option (Toml × List Char) :=
  match cs with
  | '\x7b' :: rest =>
    match depth with
    | 0 => none
    | depth + 1 => readTable (readValue depth) rest
  | '"' :: _ => (readString cs).map fun (s, rest) => (string (String.ofList s), rest)
  | '\'' :: _ => (readString cs).map fun (s, rest) => (string (String.ofList s), rest)
  | cs => readWord cs

/-! ### Files -/

/-- The lines of a file after the header `path`. The bound is the length of the text. -/
def readLines : Nat → List String → List (String × Toml) → List Char →
    Option (List (String × Toml))
  | 0, _, entries, cs => if cs.isEmpty then some entries else none
  | bound + 1, path, entries, cs =>
    match skipIndent cs with
    | [] => some entries
    | '[' :: rest => do
      let (path, rest) ← readKey rest
      match rest with
      | ']' :: rest => readLines bound path (← open? path entries) (← endLine? rest)
      | _ => none
    | cs =>
      match endLine? cs with
      | some rest => readLines bound path entries rest
      | none => do
        let (keys, rest) ← readKey cs
        match rest with
        | '=' :: rest =>
          let (value, rest) ← readValue maxDepth (skipIndent rest)
          readLines bound path (← put? value keys path entries) (← endLine? rest)
        | _ => none

/-- The settings of a file. A byte order mark at its start is passed over. -/
def ofText? (s : String) : Option (List (String × Toml)) :=
  let cs := match s.toList with
    | '\ufeff' :: cs => cs
    | cs => cs
  readLines cs.length [] [] cs

end DocFilter.Toml
