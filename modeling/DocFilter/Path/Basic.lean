import DocFilter.Path.Subscript

/-!
# Field paths

A path leads from the root of a document to the values of a field. It is a list of steps: field
names, the wildcard `*` for every field, and array subscripts.

## Main definitions

* `Step`, `Path`: the steps and the paths.
* `needsQuoting`: which names cannot stand in a path of SQL/JSON without quotes.
* `Path.isSingleton`: whether a path leads to one value at most.
-/

namespace DocFilter

/-- A step of a path. A field is quoted if its text was, or if its name needs it. -/
inductive Step where
  | field (name : String) (quoted : Bool)
  | wildcard
  | array (subscript : Subscript)
deriving DecidableEq, Repr

/-- A field path: the steps from the root. -/
structure Path where
  steps : List Step
deriving DecidableEq, Repr

/-- A letter, digit or underscore of ASCII. -/
def isWordChar (c : Char) : Bool :=
  c.isAlphanum || c == '_'

/-- Whether a name has to be quoted: it is empty, starts with a digit, or has a character that is
no letter, digit or underscore of ASCII. -/
def needsQuoting (name : String) : Bool :=
  match name.toList with
  | [] => true
  | c :: cs => c.isDigit || !(c :: cs).all isWordChar

namespace Step

/-- The step to a field whose name decides on its quotes. -/
def named (name : String) : Step :=
  field name (needsQuoting name)

/-- Whether the step goes into an array. -/
def isArray : Step → Bool
  | array _ => true
  | _ => false

/-- Whether the step may lead to several values by its nature. -/
def isWildcard : Step → Bool
  | wildcard => true
  | array subscript => subscript.isWildcard
  | field _ _ => false

end Step

namespace Path

/-- The path of the document itself. -/
def root : Path := ⟨[]⟩

/-- Whether the path leads to the document itself. -/
def isRoot (p : Path) : Bool :=
  p.steps.isEmpty

/-- Whether the first step goes into an array. -/
def startsWithArray (p : Path) : Bool :=
  p.steps.head?.any Step.isArray

/-- Whether the last step goes into an array. -/
def endsWithArray (p : Path) : Bool :=
  p.steps.getLast?.any Step.isArray

/-- Whether some step goes into an array. -/
def hasArraySteps (p : Path) : Bool :=
  p.steps.any Step.isArray

/-- Whether some step is a wildcard, for fields or for elements. -/
def hasWildcards (p : Path) : Bool :=
  p.steps.any Step.isWildcard

/-- A path of plain fields leads to one value at most. -/
def isSingleton (p : Path) : Bool :=
  !p.hasArraySteps && !p.hasWildcards

end Path

end DocFilter
