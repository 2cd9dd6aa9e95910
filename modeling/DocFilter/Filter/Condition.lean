import DocFilter.Filter.Formula

/-!
# Conditions

A formula is brought into the form in which it is rendered: a tree of conjunctions and
disjunctions over single tests. Connectives of the same kind are flattened into each other, a
negated conjunction of tests becomes a disjunction of negated tests, and a conjunction is only
opened where it does not stand in one already.

## Main definitions

* `Condition`: the trees.
* `Group`: the kind of node that conditions are placed in.
* `Formula.lower`: the conditions of a formula for a given place.
-/

namespace DocFilter

/-- How the conditions of a group are joined. -/
inductive Junction where
  | and | or
deriving DecidableEq, Repr

/-- A condition on documents, in the form in which it is rendered. -/
inductive Condition where
  | leaf (path : Path) (test : Test)
  | group (junction : Junction) (negated : Bool) (children : List Condition)
  /-- Some value at `path` satisfies all children. -/
  | within (path : Path) (children : List Condition)

/-- The kind of node that conditions are placed in. -/
structure Group where
  junction : Junction
  negated : Bool
deriving DecidableEq, Repr

namespace Group

/-- The conjunction that a whole filter is. -/
def root : Group := ⟨.and, false⟩

/-- The group of a connective. -/
def ofConnective : Connective → Group
  | .and => ⟨.and, false⟩
  | .or => ⟨.or, false⟩
  | .nor => ⟨.or, true⟩

/-- Whether the items of a connective can be placed directly in the group. A conjunction can join
one of either polarity, a disjunction only one that is not negated. -/
def absorbs (g : Group) : Connective → Bool
  | .and => g.junction = .and
  | .or => g.junction = .or && !g.negated
  | .nor => false

/-- The group with some children. -/
def node (g : Group) (children : List Condition) : Condition :=
  .group g.junction g.negated children

end Group

/-! ### Fields -/

/-- The conditions of a demand for a group. A negated conjunction of several tests is a disjunction
of the opposite tests. -/
def Demand.lower (path : Path) (g : Group) : Demand → List Condition
  | test t => [.leaf path t]
  | negation [] => []
  | negation [t] => [.leaf path t.negate]
  | negation tests =>
    let leaves := tests.map fun t => Condition.leaf path t.negate
    if g.absorbs .or then leaves else [.group .or false leaves]

/-- The conditions of the demands on a field for a group. Several demands have to hold together. -/
def Demand.lowerAll (path : Path) (g : Group) (demands : List Demand) : List Condition :=
  if 1 < demands.length && !g.absorbs .and then
    [.group .and false (demands.flatMap (Demand.lower path .root))]
  else demands.flatMap (Demand.lower path g)

/-! ### Formulas -/

namespace Formula

mutual

/-- The conditions of a formula for a group. -/
def lower (g : Group) : Formula → List Condition
  | field path demands => Demand.lowerAll path g demands
  | within path body => [.within path (lowerAll .root body)]
  | negation body => [.group .and true (lowerAll ⟨.and, true⟩ body)]
  | junction c items =>
    if g.absorbs c then lowerItems g items
    else [(Group.ofConnective c).node (lowerItems (.ofConnective c) items)]

/-- The conditions of the formulas of a conjunction for a group that holds them as they are. -/
def lowerAll (g : Group) : List Formula → List Condition
  | [] => []
  | f :: fs => f.lower g ++ lowerAll g fs

/-- The conditions of the filters under a connective. In a disjunction, a filter of several members
is a conjunction of its own. -/
def lowerItems (g : Group) : List (List Formula) → List Condition
  | [] => []
  | fs :: rest =>
    (if g.absorbs .and || fs.length = 1 then lowerAll g fs
      else [.group .and false (lowerAll .root fs)]) ++ lowerItems g rest

end

end Formula

/-! ### Parts of a condition -/

namespace Condition

mutual

/-- The tests of a condition with their paths, in order. -/
def leaves : Condition → List (Path × Test)
  | leaf path test => [(path, test)]
  | group _ _ children => leavesOfAll children
  | within _ children => leavesOfAll children

/-- The tests of some conditions with their paths, in order. -/
def leavesOfAll : List Condition → List (Path × Test)
  | [] => []
  | c :: cs => c.leaves ++ leavesOfAll cs

end

/-- The operands of some conditions, in order. -/
def operands (cs : List Condition) : List Operand :=
  (leavesOfAll cs).flatMap fun (_, test) => test.operands

theorem operands_cons (c : Condition) (cs : List Condition) :
    operands (c :: cs) = operands [c] ++ operands cs := by
  simp [operands, leavesOfAll]

theorem operands_append (cs ds : List Condition) :
    operands (cs ++ ds) = operands cs ++ operands ds := by
  induction cs with
  | nil => rfl
  | cons c cs ih => rw [List.cons_append, operands_cons, ih, operands_cons c cs, List.append_assoc]

theorem operands_leaf (path : Path) (test : Test) : operands [leaf path test] = test.operands := by
  simp [operands, leavesOfAll, leaves]

theorem operands_group (j : Junction) (negated : Bool) (children : List Condition) :
    operands [group j negated children] = operands children := by
  simp [operands, leavesOfAll, leaves]

theorem operands_within (path : Path) (children : List Condition) :
    operands [within path children] = operands children := by
  simp [operands, leavesOfAll, leaves]

end Condition

end DocFilter
