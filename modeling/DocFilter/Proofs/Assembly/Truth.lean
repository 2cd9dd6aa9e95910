import DocFilter.Proofs.Assembly.Basic
import DocFilter.Proofs.Leaves

/-!
# Truth values of tables

The tests in a table are numbered in its order. If every test is given a truth value by its number,
every node of the table has one: that of a group joins those of its children, which stand behind it.
The truth value of the root depends on a condition placed in the table only through the truth value
of that condition.

## Main definitions

* `Node.truths`: the truth values of the nodes of a table.
* `Condition.truth`: the truth value of a condition whose first test has a given number.
* `Assembly.truth`: the truth value of the root.
* `Condition.Alike`: conditions with the same tests and the same truth value as a disjunction.

## Main results

* `Condition.truths_nodesAt`: a condition has its own truth value in a table.
* `Assembly.truth_insert_congr`: conditions with one truth value may replace each other in a table.
-/

namespace DocFilter

/-- The truth value of some parts that are joined. -/
def Junction.truth : Junction → List Bool → Bool
  | and, values => values.all id
  | or, values => values.any id

/-! ### Tables -/

namespace Node

/-- The truth value of a node: the given one if it is a test, and otherwise that of its children
among the nodes behind it. -/
def truth (n : Node) (test : Bool) (behind : List Bool) : Bool :=
  match n.kind with
  | .test _ => test
  | .group junction =>
    n.negated ^^ junction.truth (n.children.map fun i => behind.getD (i - (n.id + 1)) false)

/-- The truth values of the nodes of a part of a table whose first test has the number `k`. The test
with the number `i` is given the truth value `values i`. -/
def truths (values : Nat → Bool) (k : Nat) : List Node → List Bool
  | [] => []
  | n :: nodes =>
    let behind := truths values (if n.kind.isGroup then k else k + 1) nodes
    n.truth (values k) behind :: behind

/-- What a node says about the test that it is. -/
def test? (n : Node) : Option (Relation × Bool × Nat × Option String) :=
  match n.kind with
  | .test relation => some (relation, n.negated, n.operandCount, n.predicate)
  | .group _ => none

end Node

/-- What the node of a test says about it. -/
def Test.entry : Path × Test → Relation × Bool × Nat × Option String
  | (path, t) => (t.relation, t.negated, t.operands.length, some (t.predicate path))

namespace Node

/-- The truth values of nodes do not depend on which nodes stand behind them, but only on the truth
value of the first of these, if no other is a child of theirs. -/
theorem getD_truths_append {values : Nat → Bool} {nodes xs ys : List Node}
    (hhead : ∀ k, (truths values k xs).getD 0 false = (truths values k ys).getD 0 false)
    (first : Nat) (hids : nodes.map Node.id = List.range' first nodes.length)
    (hchild : ∀ n ∈ nodes, ∀ i ∈ n.children, i ≤ first + nodes.length) (k j : Nat)
    (hj : j ≤ nodes.length) :
    (truths values k (nodes ++ xs)).getD j false =
      (truths values k (nodes ++ ys)).getD j false := by
  induction nodes generalizing first k j with
  | nil =>
    obtain rfl := Nat.le_zero.1 hj
    exact hhead k
  | cons n nodes ih =>
    rw [List.map_cons, List.length_cons, List.range'_succ, List.cons.injEq] at hids
    obtain ⟨hid, hids⟩ := hids
    rw [List.length_cons] at hj hchild
    have hrest (k j : Nat) (hj : j ≤ nodes.length) := by
      refine ih (first + 1) hids (fun m hm i hi => ?_) k j hj
      have hle := hchild m (List.mem_cons_of_mem n hm) i hi
      omega
    rw [List.cons_append, List.cons_append, truths, truths]
    cases j with
    | succ j => exact hrest _ j (by omega)
    | zero =>
      -- the children of the first node are among those that have the same truth values
      dsimp only [List.getD_cons_zero, truth]
      cases n.kind with
      | test relation => rfl
      | group junction =>
        refine congrArg (fun values => n.negated ^^ junction.truth values) ?_
        refine List.map_congr_left fun i hi => hrest _ _ ?_
        have hle := hchild n List.mem_cons_self i hi
        omega

end Node

/-! ### Conditions -/

namespace Condition

mutual

/-- The truth value of a condition whose first test has the number `k`. -/
def truth (values : Nat → Bool) (k : Nat) : Condition → Bool
  | leaf _ _ => values k
  | group junction negated children => negated ^^ junction.truth (truthsOfAll values k children)
  | within _ children => Junction.and.truth (truthsOfAll values k children)

/-- The truth values of conditions in a row, of which the first test has the number `k`. -/
def truthsOfAll (values : Nat → Bool) (k : Nat) : List Condition → List Bool
  | [] => []
  | c :: cs => c.truth values k :: truthsOfAll values (k + c.leaves.length) cs

end

theorem truthsOfAll_append (values : Nat → Bool) (k : Nat) (cs ds : List Condition) :
    truthsOfAll values k (cs ++ ds) =
      truthsOfAll values k cs ++ truthsOfAll values (k + (leavesOfAll cs).length) ds := by
  induction cs generalizing k with
  | nil => rfl
  | cons c cs ih =>
    rw [List.cons_append, truthsOfAll, ih, truthsOfAll, List.cons_append, leavesOfAll,
      List.length_append, Nat.add_assoc]

/-! ### Conditions in tables -/

variable {values : Nat → Bool}

mutual

/-- **In a table, a condition has its own truth value**, and what stands behind it has the truth
values that it has alone. -/
theorem truths_nodesAt (parent : Nat) :
    (c : Condition) → (k id : Nat) → (rest : List Node) → ∃ inner : List Bool,
      inner.length + 1 = c.size ∧ Node.truths values k (c.nodesAt parent id ++ rest) =
        c.truth values k :: (inner ++ Node.truths values (k + c.leaves.length) rest)
  | leaf path test, k, id, rest => ⟨[], rfl, rfl⟩
  | group junction negated children, k, id, rest => by
      obtain ⟨block, hlength, htruths, hchildren⟩ := truths_nodesOfAll id children k (id + 1) rest
      refine ⟨block, by rw [size, hlength, Nat.add_comm], ?_⟩
      rw [nodesAt, List.cons_append, Node.truths, truth, leaves, ← hchildren, ← htruths]
      rfl
  | within path children, k, id, rest => by
      obtain ⟨block, hlength, htruths, hchildren⟩ := truths_nodesOfAll id children k (id + 1) rest
      refine ⟨block, by rw [size, hlength, Nat.add_comm], ?_⟩
      rw [nodesAt, List.cons_append, Node.truths, truth, leaves, ← hchildren, ← htruths]
      exact congrArg (· :: _) (Bool.false_xor _)

theorem truths_nodesOfAll (parent : Nat) :
    (cs : List Condition) → (k id : Nat) → (rest : List Node) → ∃ block : List Bool,
      block.length = sizeOfAll cs ∧ Node.truths values k (nodesOfAll parent id cs ++ rest) =
        block ++ Node.truths values (k + (leavesOfAll cs).length) rest ∧
      ∀ behind, (ids id cs).map (fun i => (block ++ behind).getD (i - id) false) =
        truthsOfAll values k cs
  | [], k, id, rest => ⟨[], rfl, rfl, fun _ => rfl⟩
  | c :: cs, k, id, rest => by
      obtain ⟨block, hlength, htruths, hchildren⟩ := truths_nodesOfAll parent cs
        (k + c.leaves.length) (id + c.size) rest
      obtain ⟨inner, hinner, hfirst⟩ := truths_nodesAt parent c k id
        (nodesOfAll parent (id + c.size) cs ++ rest)
      refine ⟨c.truth values k :: inner ++ block, ?_, ?_, fun behind => ?_⟩
      · rw [sizeOfAll, List.length_append, List.length_cons, hinner, hlength]
      · rw [nodesOfAll, List.append_assoc, hfirst, htruths, leavesOfAll, List.length_append,
          Nat.add_assoc, List.append_assoc, List.cons_append]
      · rw [ids, List.map_cons, truthsOfAll, ← hchildren behind, Nat.sub_self]
        refine congrArg _ (List.map_congr_left fun i hi => ?_)
        have hle := (bounds_of_mem_ids hi).1
        -- the truth values of the first condition stand in front
        have hplace : i - id = (c.truth values k :: inner).length + (i - (id + c.size)) := by
          rw [List.length_cons, hinner]
          omega
        rw [hplace, List.append_assoc, List.getD_eq_getElem?_getD, List.getD_eq_getElem?_getD,
          List.getElem?_append_right (Nat.le_add_right _ _), Nat.add_sub_cancel_left]

end

theorem getD_truths_nodesOfAll (parent k id : Nat) (c : Condition) :
    (Node.truths values k (nodesOfAll parent id [c])).getD 0 false = c.truth values k := by
  obtain ⟨inner, -, htruths⟩ := truths_nodesAt parent c k id []
  rw [nodesOfAll, nodesOfAll, htruths, List.getD_cons_zero]

mutual

theorem filterMap_test?_nodesAt (parent : Nat) :
    (c : Condition) → (id : Nat) →
      (c.nodesAt parent id).filterMap Node.test? = c.leaves.map Test.entry
  | leaf path test, id => rfl
  | group junction negated children, id => by
      rw [nodesAt, List.filterMap_cons_none rfl, filterMap_test?_nodesOfAll, leaves]
  | within path children, id => by
      rw [nodesAt, List.filterMap_cons_none rfl, filterMap_test?_nodesOfAll, leaves]

/-- The tests of some conditions in a table are their own. -/
theorem filterMap_test?_nodesOfAll (parent : Nat) :
    (cs : List Condition) → (id : Nat) →
      (nodesOfAll parent id cs).filterMap Node.test? = (leavesOfAll cs).map Test.entry
  | [], id => rfl
  | c :: cs, id => by
      rw [nodesOfAll, List.filterMap_append, filterMap_test?_nodesAt, filterMap_test?_nodesOfAll,
        leavesOfAll, List.map_append]

end

end Condition

/-! ### Assemblies -/

namespace Assembly

/-- The tests in the table, in its order. -/
def tests (t : Assembly) : List (Relation × Bool × Nat × Option String) :=
  t.nodes.filterMap Node.test?

/-- The truth value of the root, where the test with the number `i` is given the truth value
`values i`. -/
def truth (t : Assembly) (values : Nat → Bool) : Bool :=
  (Node.truths values 0 t.nodes).getD 0 false

theorem tests_insert (t : Assembly) (parent : Nat) (cs : List Condition) (modern : Bool) :
    (t.insert parent cs modern).tests = t.tests ++ (Condition.leavesOfAll cs).map Test.entry := by
  have hadopt (ids : List Nat) (n : Node) : (n.adopt parent ids).test? = n.test? := by
    unfold Node.adopt
    split_ifs <;> rfl
  simp only [tests, insert, Node.graft]
  rw [List.filterMap_append, List.filterMap_map, Condition.filterMap_test?_nodesOfAll]
  exact congrArg (List.filterMap · t.nodes ++ _) (funext (hadopt _))

/-- **Conditions with one truth value may replace each other**, wherever they are placed. -/
theorem truth_insert_congr {values : Nat → Bool} {c c' : Condition}
    (h : ∀ k, c.truth values k = c'.truth values k) (t : Assembly) (parent : Nat) (modern : Bool) :
    (t.insert parent [c] modern).truth values = (t.insert parent [c'] modern).truth values := by
  have hids (ids : List Nat) : Node.id ∘ Node.adopt parent ids = Node.id :=
    funext (Node.id_adopt ids)
  refine Node.getD_truths_append (fun k => ?_) 0 ?_ ?_ 0 0 (Nat.zero_le _)
  · rw [Condition.getD_truths_nodesOfAll, Condition.getD_truths_nodesOfAll, h]
  · rw [List.map_map, hids, t.numbered.ids, List.length_map]
  · intro n hn i hi
    obtain ⟨m, hm, rfl⟩ := List.mem_map.1 hn
    have hold := t.numbered.child_lt m hm
    rw [List.length_map]
    unfold Node.adopt at hi
    split_ifs at hi
    · rcases List.mem_append.1 hi with hi | hi
      · exact (hold i hi).le
      · obtain rfl := List.mem_singleton.1 hi
        exact (Nat.zero_add _).ge
    · exact (hold i hi).le

end Assembly

/-! ### Disjunctions -/

namespace Condition

/-- Conditions with the same tests, one of which is true exactly if one of the others is. -/
structure Alike (cs ds : List Condition) : Prop where
  leaves : leavesOfAll cs = leavesOfAll ds
  truth : ∀ values k,
    Junction.or.truth (truthsOfAll values k cs) = Junction.or.truth (truthsOfAll values k ds)

namespace Alike

variable {cs ds : List Condition}

theorem refl (cs : List Condition) : Alike cs cs :=
  ⟨rfl, fun _ _ => rfl⟩

theorem symm (h : Alike cs ds) : Alike ds cs :=
  ⟨h.leaves.symm, fun values k => (h.truth values k).symm⟩

theorem trans {es : List Condition} (h : Alike cs ds) (h' : Alike ds es) : Alike cs es :=
  ⟨h.leaves.trans h'.leaves, fun values k => (h.truth values k).trans (h'.truth values k)⟩

theorem append {cs' ds' : List Condition} (h : Alike cs ds) (h' : Alike cs' ds') :
    Alike (cs ++ cs') (ds ++ ds') where
  leaves := by rw [leavesOfAll_append, h.leaves, h'.leaves, leavesOfAll_append]
  truth values k := by
    have hfirst := h.truth values k
    have hrest := h'.truth values (k + (leavesOfAll ds).length)
    simp only [Junction.truth] at hfirst hrest ⊢
    rw [truthsOfAll_append, List.any_append, hfirst, h.leaves, hrest, truthsOfAll_append,
      List.any_append]

/-- A plain disjunction in a disjunction may be dissolved. -/
theorem group (cs : List Condition) : Alike [.group .or false cs] cs where
  leaves := by rw [leavesOfAll, leavesOfAll, Condition.leaves, List.append_nil]
  truth values k := by
    simp only [truthsOfAll, Condition.truth, Bool.false_xor]
    exact List.any_cons.trans (Bool.or_false _)

/-- The disjunction of alike conditions has one truth value. -/
theorem truth_group (h : Alike cs ds) (negated : Bool) (values : Nat → Bool) (k : Nat) :
    (Condition.group .or negated cs).truth values k =
      (Condition.group .or negated ds).truth values k := by
  rw [Condition.truth, h.truth, Condition.truth]

end Alike

end Condition

end DocFilter
