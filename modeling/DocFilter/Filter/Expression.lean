import DocFilter.Filter.Layout
import DocFilter.Sql.Fragment

/-!
# Filter expressions

Conditions are written as a filter expression of SQL/JSON. The operands that are not written into
it are bound to the variables `$B0`, `$B1`, … in the order in which the expression mentions them.

## Main definitions

* `Features`: what an engine understands.
* `Condition.render`: the text of a condition, and the values that it binds.
* `Expression`: a filter expression with its variables.
* `Expression.ofConditions?`: the expression of the conditions of a filter.
* `Expression.fragment`: the restriction in SQL.
-/

namespace DocFilter

/-- The feature level of an engine. Only a modern one knows `in`. -/
inductive Features where
  | legacy | modern
deriving DecidableEq, Repr

/-- A value that is passed to a variable of an expression. -/
structure Passing where
  value : Bind
  conversion : Conversion
deriving DecidableEq, Repr

/-- A filter expression. The value at place `i` is passed to the variable `$Bi`. -/
structure Expression where
  text : String
  passings : List Passing
deriving DecidableEq, Repr

/-! ### Operands -/

/-- The name of the variable with number `n`. -/
def variableName (n : Nat) : String :=
  "B" ++ Nat.repr n

/-- The text of an operand where `next` is the first free variable, and the value that it binds. -/
def Operand.render (next : Nat) (o : Operand) : String × List Passing :=
  match o.inline?, o.bind? with
  | some literal, _ => (literal, [])
  | none, some bind => ("$" ++ variableName next, [⟨bind, o.conversion⟩])
  | none, none => ("null", [])

/-- The texts of some operands, and the values that they bind. -/
def Operand.renderAll (next : Nat) : List Operand → List String × List Passing
  | [] => ([], [])
  | o :: os =>
    let (text, passings) := o.render next
    let (texts, rest) := renderAll (next + passings.length) os
    (text :: texts, passings ++ rest)

/-! ### Tests -/

namespace Test

/-- A comparison with several operands as equations, joined by `separator`. -/
def equations (predicate separator : String) (operands : List String) : String :=
  "(" ++ String.intercalate separator (operands.map fun o => predicate ++ " == " ++ o) ++ ")"

/-- The text of a test that is not for presence, without its negation. Lists of several operands
are spelled out, except by a modern engine for membership. -/
def body (features : Features) (predicate : String) (relation : Relation) (operands : List String) :
    String :=
  match relation, features, operands with
  | .oneOf, .modern, _ :: _ :: _ => predicate ++ " in (" ++ String.intercalate "," operands ++ ")"
  | .oneOf, .legacy, _ :: _ :: _ => equations predicate " || " operands
  | .all, _, _ :: _ :: _ => equations predicate " && " operands
  | relation, _, operands => predicate ++ " " ++ relation.token ++ " " ++ String.join operands

/-- The text of a test, and the values that it binds. -/
def render (features : Features) (next : Nat) (path : Path) (t : Test) : String × List Passing :=
  let predicate := t.predicate path
  let (operands, passings) := Operand.renderAll next t.operands
  let text :=
    if t.relation = .present then
      if t.negated then "(!exists(" ++ predicate ++ "))" else "exists(" ++ predicate ++ ")"
    else
      let body := body features predicate t.relation operands
      if t.negated then "(!(" ++ body ++ "))" else body
  (text, passings)

end Test

/-! ### Conditions -/

namespace Condition

/-- What stands between the conditions of a group. -/
def separator : Junction → String
  | .and => " && "
  | .or => " || "

/-- Whether a group of exactly these conditions has parentheses around its text anyway. -/
def wrapsItself : List Condition → Bool
  | [leaf _ test] => test.negated
  | [group _ negated children] => negated || 1 < children.length
  | _ => false

/-- The text of a group around the joined texts of its children. -/
def wrap (negated : Bool) (children : List Condition) (joined : String) : String :=
  if negated then
    if wrapsItself children then "(!" ++ joined ++ ")" else "(!(" ++ joined ++ "))"
  else if children.length = 1 then joined
  else "(" ++ joined ++ ")"

mutual

/-- The text of a condition where `next` is the first free variable, and the values that it
binds. -/
def render (features : Features) (next : Nat) : Condition → String × List Passing
  | leaf path test => test.render features next path
  | group junction negated children =>
    let (texts, passings) := renderAll features next children
    (wrap negated children (String.intercalate (separator junction) texts), passings)
  | within path children =>
    let (texts, passings) := renderAll features next children
    ("exists(" ++ path.queryEach '@' ++ "?(" ++ String.intercalate " && " texts ++ "))", passings)

/-- The texts of some conditions, and the values that they bind. -/
def renderAll (features : Features) (next : Nat) : List Condition → List String × List Passing
  | [] => ([], [])
  | c :: cs =>
    let (text, passings) := c.render features next
    let (texts, rest) := renderAll features (next + passings.length) cs
    (text :: texts, passings ++ rest)

end

end Condition

/-! ### Expressions -/

namespace Expression

/-- The expression of the conditions of a filter, unless every document satisfies them. -/
def ofConditions? (features : Features) (cs : List Condition) : Option Expression :=
  if cs.isEmpty then none
  else
    let (texts, passings) := Condition.renderAll features 0 cs
    some ⟨String.intercalate " && " texts, passings⟩

/-- The assignment of a value to the variable with number `n`. -/
def passingText (n : Nat) (p : Passing) : String :=
  p.conversion.placeholder ++ " as " ++ quoteIdentifier (variableName n)

/-- The assignments to the variables from number `n` on. -/
def passingTexts (n : Nat) : List Passing → List String
  | [] => []
  | p :: ps => passingText n p :: passingTexts (n + 1) ps

/-- The values of the variables in order. -/
def binds (e : Expression) : List Bind :=
  e.passings.map Passing.value

/-- The restriction of the documents in a column to those that satisfy the expression. -/
def fragment (column : String) (e : Expression) : Fragment :=
  ⟨"JSON_EXISTS(" ++ quoteIdentifier column ++ ", '$?(" ++ e.text ++ ")'" ++
      (if e.passings.isEmpty then ""
        else " passing " ++ String.intercalate ", " (passingTexts 0 e.passings)) ++
      ")",
    e.binds⟩

end Expression

end DocFilter
