import DocFilter.Filter.Condition
import DocFilter.Path.Rendition

/-!
# Numbered nodes

The nodes of the tree of conditions, numbered from the root in the order in which a walk meets
them, parents before children and children from left to right.

## Main definitions

* `Node`: a node with its number, its parent and its children.
* `Condition.nodes`: the nodes of a tree whose root joins the given conditions.
* `Condition.describe`: a summary of the tree in one line.
-/

namespace DocFilter

/-- What a node does. -/
inductive NodeKind where
  | group (junction : Junction)
  | test (relation : Relation)
deriving DecidableEq, Repr

/-- A numbered node of the tree of conditions. -/
structure Node where
  id : Nat
  kind : NodeKind
  negated : Bool
  /-- How many operands a test has. -/
  operandCount : Nat
  /-- The path that a test reads, with its modifier. -/
  predicate : Option String
  /-- The path whose single values the children are about. -/
  downscope : Option Path
  children : List Nat
  parent : Option Nat
deriving DecidableEq, Repr

/-- The connective of an expression. -/
def Junction.token : Junction → String
  | and => "&&"
  | or => "||"

/-- The name of a junction in a summary. -/
def Junction.label : Junction → String
  | and => "and"
  | or => "or"

/-- What a node is called in a listing: a connective, or the operator of a test. -/
def NodeKind.token : NodeKind → String
  | group junction => junction.token
  | test relation => relation.token

/-- Whether a node has children instead of operands. -/
def NodeKind.isGroup : NodeKind → Bool
  | group _ => true
  | test _ => false

/-- The path of a test, with the method of its modifier. -/
def Test.predicate (path : Path) (t : Test) : String :=
  path.query '@' ++
    match t.modifier with
    | some m => "." ++ m.itemMethod
    | none => ""

namespace Condition

/-! ### Numbering -/

mutual

/-- How many nodes a condition has. -/
def size : Condition → Nat
  | leaf _ _ => 1
  | group _ _ children => 1 + sizeOfAll children
  | within _ children => 1 + sizeOfAll children

/-- How many nodes some conditions have. -/
def sizeOfAll : List Condition → Nat
  | [] => 0
  | c :: cs => c.size + sizeOfAll cs

end

/-- The numbers of some conditions in a row, of which the first has the number `id`. -/
def ids (id : Nat) : List Condition → List Nat
  | [] => []
  | c :: cs => id :: ids (id + c.size) cs

mutual

/-- The nodes of a condition that has the number `id`. -/
def nodesAt (parent id : Nat) : Condition → List Node
  | leaf path test =>
    [⟨id, .test test.relation, test.negated, test.operands.length, some (test.predicate path), none,
      [], some parent⟩]
  | group junction negated children =>
    ⟨id, .group junction, negated, 0, none, none, ids (id + 1) children, some parent⟩ ::
      nodesOfAll id (id + 1) children
  | within path children =>
    ⟨id, .group .and, false, 0, none, some path, ids (id + 1) children, some parent⟩ ::
      nodesOfAll id (id + 1) children

/-- The nodes of conditions in a row, of which the first has the number `id`. -/
def nodesOfAll (parent id : Nat) : List Condition → List Node
  | [] => []
  | c :: cs => c.nodesAt parent id ++ nodesOfAll parent (id + c.size) cs

end

/-- The nodes of the tree whose root joins some conditions, by their numbers. -/
def nodes (cs : List Condition) : List Node :=
  ⟨0, .group .and, false, 0, none, none, ids 1 cs, none⟩ :: nodesOfAll 0 1 cs

/-! ### Summary -/

/-- The mark of a negated node. -/
def mark (negated : Bool) : String :=
  if negated then "!" else ""

mutual

/-- A condition in a summary. -/
def summary : Condition → String
  | leaf path test =>
    mark test.negated ++ test.relation.label ++ " " ++ path.text ++
      (match test.modifier with
        | some m => "." ++ m.itemMethod
        | none => "") ++
      "/" ++ Nat.repr test.operands.length
  | group junction negated children =>
    mark negated ++ junction.label ++ "(" ++ String.intercalate ", " (summaries children) ++ ")"
  | within path children =>
    "and@" ++ path.text ++ "(" ++ String.intercalate ", " (summaries children) ++ ")"

/-- The conditions of a group in a summary. -/
def summaries : List Condition → List String
  | [] => []
  | c :: cs => c.summary :: summaries cs

end

/-- A summary of the tree whose root joins some conditions. -/
def describe (cs : List Condition) : String :=
  "and(" ++ String.intercalate ", " (summaries cs) ++ ")"

end Condition

end DocFilter
