import DocFilter.Path.Basic
import DocFilter.Text.Hex

/-!
# Renditions of paths

A path is written in two languages. In the path language of SQL/JSON, inside a string literal of
SQL, a quoted name is a JSON string whose apostrophes are doubled. In the notation that paths are
read from, a quoted name stands between backquotes.

## Main definitions

* `Step.sqlText`, `Step.sourceText`: a step in either language.
* `Path.query`: the path behind a base, for filter expressions.
* `Path.singleton`: the path without its array steps, for single values.
* `Path.text`: the path as it is read.
-/

namespace DocFilter

/-! ### Steps -/

/-- The control characters U+0000 to U+001F and U+007F to U+009F. -/
def isControl (c : Char) : Bool :=
  c.toNat < 0x20 || (0x7F ≤ c.toNat && c.toNat ≤ 0x9F)

/-- One character of a quoted name inside a literal of SQL. -/
def escapeNameChar (c : Char) : List Char :=
  match c with
  | '"' => ['\\', '"']
  | '\\' => ['\\', '\\']
  | '\'' => ['\'', '\'']
  | '\n' => ['\\', 'n']
  | '\r' => ['\\', 'r']
  | '\t' => ['\\', 't']
  | '\x08' => ['\\', 'b']
  | '\x0c' => ['\\', 'f']
  | c => if isControl c then '\\' :: 'u' :: Hex.upper c.toNat else [c]

/-- A quoted name inside a literal of SQL. -/
def quoteName (name : String) : String :=
  "\"" ++ String.ofList (name.toList.flatMap escapeNameChar) ++ "\""

namespace Step

/-- The step in the path language of SQL/JSON, without the dot before it. -/
def sqlText : Step → String
  | field name true => quoteName name
  | field name false => name
  | wildcard => "*"
  | array subscript => subscript.text

/-- The step in the notation of paths, without the dot before it. -/
def sourceText : Step → String
  | field name true => "`" ++ name ++ "`"
  | field name false => name
  | wildcard => "*"
  | array subscript => subscript.text

/-- The dot that stands before every step but an array step. -/
def dot (s : Step) : String :=
  if s.isArray then "" else "."

end Step

/-! ### Paths -/

namespace Path

/-- The steps in the path language of SQL/JSON, each behind its dot. -/
def sqlSteps (steps : List Step) : String :=
  String.join (steps.map fun s => s.dot ++ s.sqlText)

/-- The path behind `base`, for instance `@.a[0].b`. -/
def query (base : Char) (p : Path) : String :=
  String.singleton base ++ sqlSteps p.steps

/-- The path behind `base` such that it leads to the elements of a final array. -/
def queryEach (base : Char) (p : Path) : String :=
  p.query base ++ if p.endsWithArray then "" else "[*]"

/-- The path behind `$` without its array steps; if `forced`, every step takes the first element
of an array. -/
def singleton (forced : Bool) (p : Path) : String :=
  "$" ++ String.join ((p.steps.filter fun s => !s.isArray).map fun s =>
    "." ++ s.sqlText ++ if forced then "[0]" else "")

/-- The path in its own notation. -/
def text : Path → String
  | ⟨[]⟩ => ""
  | ⟨s :: steps⟩ => s.sourceText ++ String.join (steps.map fun s => s.dot ++ s.sourceText)

end Path

end DocFilter
