import DocFilter.Error
import DocFilter.Path.Basic
import DocFilter.Path.Scan

/-!
# Reading paths

Steps are separated by dots. A plain step is a run of characters other than `.`, `[`, `]` and the
backquote, a quoted step stands between backquotes, and an array step between brackets. An array
step follows a field directly, without a dot, and two of them never meet.

## Main definitions

* `Path.readStep`: the step at the start of a text.
* `Path.ofText`: the path that a text is.
-/

namespace DocFilter.Path

/-- How a step is spelled, which decides what may follow it. -/
inductive Spelling where
  | plain
  | quoted
  | bracketed
deriving DecidableEq, Repr

/-- The characters of a plain step. -/
def isPlainChar (c : Char) : Bool :=
  c != '.' && c != '[' && c != ']' && c != '\x60'

/-- The step of a plain run. An empty run comes from a bracket that closes nothing. -/
def plainStep (name : String) : Except PathFault Step :=
  if name = "" then .error .malformedSubscript
  else if name = "$" ∨ name = "@" then .error .rootMarker
  else if name = "*" then .ok .wildcard
  else .ok (.named name)

/-- The step of a run between backquotes. -/
def quotedStep (name : String) : Except PathFault Step :=
  if name = "" then .error .emptyStep
  else if name = "*" then .ok .wildcard
  else .ok (.field name true)

/-- The array step behind an opening bracket, and the text after it. -/
def readArrayStep (cs : List Char) : Except PathFault (Step × List Char) :=
  let inside := cs.takeWhile fun c => c != '[' && c != ']'
  match cs.drop inside.length with
  | [] => .error .unclosedArray
  | '[' :: _ => .error .malformedSubscript
  | _ :: rest =>
    match Subscript.ofChars? inside with
    | some subscript => .ok (.array subscript, rest)
    | none => .error .malformedSubscript

/-- The quoted step behind an opening backquote, and the text after it. -/
def readQuotedStep (cs : List Char) : Except PathFault (Step × List Char) :=
  let name := cs.takeWhile (· != '\x60')
  match cs.drop name.length with
  | [] => .error .unclosedQuote
  | _ :: rest => (quotedStep (String.ofList name)).map (·, rest)

/-- The plain step at the start of a text, and the text after it. -/
def readPlainStep (cs : List Char) : Except PathFault (Step × List Char) :=
  let name := cs.takeWhile isPlainChar
  (plainStep (String.ofList name)).map (·, cs.drop name.length)

/-- The step at the start of a text, its spelling and the text after it. -/
def readStep : List Char → Except PathFault (Step × Spelling × List Char)
  | [] => .error .emptyStep
  | '.' :: _ => .error .emptyStep
  | '[' :: cs => (readArrayStep cs).map fun (step, rest) => (step, .bracketed, rest)
  | '\x60' :: cs => (readQuotedStep cs).map fun (step, rest) => (step, .quoted, rest)
  | cs => (readPlainStep cs).map fun (step, rest) => (step, .plain, rest)

/-- The text of the next step, or `none` at the end of the path. A dot is skipped, and no array
step may follow it; an array step follows a field directly. -/
def nextStep (spelling : Spelling) : List Char → Except PathFault (Option (List Char))
  | [] => .ok none
  | '.' :: '[' :: _ => .error .emptyStep
  | '.' :: rest => .ok (some rest)
  | '[' :: rest => if spelling = .bracketed then .error .missingDot else .ok (some ('[' :: rest))
  | ']' :: _ => .error (if spelling = .plain then .malformedSubscript else .missingDot)
  | _ :: _ => .error .missingDot

/-- The steps of a text. Every step takes a character, so the length of the text bounds their
number, and where the bound is used up so is the text. -/
def readSteps : Nat → List Char → Except PathFault (List Step)
  | 0, _ => .error .emptyStep
  | bound + 1, cs => do
    let (step, spelling, rest) ← readStep cs
    match ← nextStep spelling rest with
    | none => return [step]
    | some rest => return step :: (← readSteps bound rest)

/-- The path that some characters are. -/
def ofChars (cs : List Char) : Except PathFault Path :=
  if cs = [] then .error .emptyPath else (readSteps cs.length cs).map Path.mk

/-- The path that a text is. -/
def ofText (s : String) : Except Error Path :=
  (ofChars s.toList).mapError (.invalidPath s)

/-- The path that a text is, if it leads to one value at most. -/
def ofSingletonText (s : String) : Except Error Path := do
  let path ← ofText s
  if path.isSingleton then return path else throw (.singletonPathRequired s)

end DocFilter.Path
