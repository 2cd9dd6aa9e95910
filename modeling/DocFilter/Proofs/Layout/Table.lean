import DocFilter.Proofs.Flattening
import DocFilter.Proofs.Layout.Walk
import Mathlib.Algebra.GroupWithZero.Nat
import Mathlib.Data.List.Nodup

/-!
# The table of nodes

The numbered nodes of an accepted filter make a tree in one table. Every node stands at its number,
the numbers follow a walk from the root, and parents and children point at each other. Each node is
shaped as its kind asks, and the tree is flattened.

The table is built from the nodes that hang below one node: the nodes of a condition and those of
the conditions behind it follow each other, and a group stands before what hangs below it.

## Main definitions

* `Node.preorder`: the numbers that a walk through a table meets.
* `Node.IsLayout`: what holds of a table of nodes and the list of operands beside it.
* `Node.Hangs`: the nodes of a part of a table that hang below one node.

## Main results

* `Condition.hangs_nodesAt`: the nodes of a condition hang below its parent.
* `Condition.preorder_nodesAt`: a walk meets the nodes of a condition in order.
* `Filter.isLayout_nodes_operands`: the nodes of an accepted filter are a layout of its operands.
-/

namespace DocFilter

/-! ### Layouts -/

/-- How many operands a test with the relation has. -/
def Relation.Takes (count : Nat) : Relation → Prop
  | present => count = 0
  | oneOf => 1 ≤ count
  | all => 1 ≤ count
  | _ => count = 1

namespace Node

/-- The numbers of the nodes below a node and its own, parents before children and children from
left to right, at most `bound` deep. -/
def preorder (nodes : List Node) : Nat → Nat → List Nat
  | 0, _ => []
  | bound + 1, id =>
    id :: ((nodes[id]?.map children).getD []).flatMap (preorder nodes bound)

theorem preorder_of_getElem? {nodes : List Node} {id : Nat} {n : Node} (bound : Nat)
    (h : nodes[id]? = some n) :
    preorder nodes (bound + 1) id = id :: n.children.flatMap (preorder nodes bound) := by
  rw [preorder, h]
  rfl

/-- A node has what its kind asks for. A group has children, unless it is the root, and only a plain
conjunction is about single values of a field. A test has a predicate and a suitable number of
operands, and nothing below it. -/
def Shaped (n : Node) : Prop :=
  match n.kind with
  | .group junction =>
    n.predicate = none ∧ n.operandCount = 0 ∧ (n.id ≠ 0 → n.children ≠ []) ∧
      (n.downscope ≠ none → junction = .and ∧ n.negated = false)
  | .test relation =>
    n.predicate ≠ none ∧ n.children = [] ∧ n.downscope = none ∧ relation.Takes n.operandCount

/-- Whether `n` may be a child of `p` in a flattened tree: as a plain conjunction that is not about
single values only of a disjunction, and as a plain disjunction of no plain disjunction. -/
def Under (p n : Node) : Prop :=
  (n.kind = .group .and → n.negated = false → n.downscope = none → p.kind = .group .or) ∧
    (n.kind = .group .or → n.negated = false → ¬(p.kind = .group .or ∧ p.negated = false))

/-- **A table of nodes beside a list of operands.** -/
structure IsLayout (nodes : List Node) (operands : List Operand) : Prop where
  /-- The root is a plain conjunction. -/
  root : ∃ children,
    nodes[0]? = some ⟨0, .group .and, false, 0, none, none, children, none⟩
  /-- Every node stands at its number. -/
  id_eq : ∀ (i : Nat) (n : Node), nodes[i]? = some n → n.id = i
  /-- Every other node has a parent, which stands before it and has it as a child once. No other
  node has it as a child. -/
  parent : ∀ n ∈ nodes, n.id ≠ 0 → ∃ p ∈ nodes, n.parent = some p.id ∧ p.id < n.id ∧ p.Under n ∧
    ∀ m ∈ nodes, m.children.count n.id = if m.id = p.id then 1 else 0
  /-- The children of a node are nodes, and have it as their parent. -/
  child : ∀ p ∈ nodes, ∀ i ∈ p.children, ∃ n ∈ nodes, n.id = i ∧ n.parent = some p.id
  /-- A walk from the root meets all nodes in the order of the table. -/
  preorder : ∀ bound, nodes.length ≤ bound → preorder nodes bound 0 = List.range nodes.length
  shaped : ∀ n ∈ nodes, n.Shaped
  /-- The tests have as many operands as there are. -/
  operands : (nodes.map operandCount).sum = operands.length

/-! ### Nodes below a node -/

/-- The nodes of a part of a table, numbered from `first` on, that hang below the node `p`. -/
structure Hangs (p : Node) (first : Nat) (nodes : List Node) : Prop where
  ids : nodes.map Node.id = List.range' first nodes.length
  parent : ∀ n ∈ nodes, ∃ q ∈ p :: nodes, n.parent = some q.id ∧ n.id ∈ q.children ∧ q.Under n
  child : ∀ q ∈ nodes, ∀ i ∈ q.children, ∃ n ∈ nodes, n.id = i ∧ n.parent = some q.id
  increasing : ∀ q ∈ nodes, (q.id :: q.children).Pairwise (· < ·)

variable {p : Node} {first : Nat} {nodes nodes' : List Node}

theorem hangs_nil : Hangs p first [] where
  ids := rfl
  parent := nofun
  child := nofun
  increasing := nofun

/-- What hangs below a node may be put together. -/
theorem Hangs.append (h : Hangs p first nodes) (h' : Hangs p (first + nodes.length) nodes') :
    Hangs p first (nodes ++ nodes') where
  ids := by
    rw [List.map_append, h.ids, h'.ids, List.length_append, List.range'_append_1]
  parent := by
    intro n hn
    rcases List.mem_append.1 hn with hn | hn
    · obtain ⟨q, hq, hparent⟩ := h.parent n hn
      exact ⟨q, List.mem_append_left nodes' hq, hparent⟩
    · obtain ⟨q, hq, hparent⟩ := h'.parent n hn
      rcases List.mem_cons.1 hq with rfl | hq
      · exact ⟨q, List.mem_cons_self, hparent⟩
      · exact ⟨q, List.mem_cons_of_mem _ (List.mem_append_right nodes hq), hparent⟩
  child := by
    intro q hq i hi
    rcases List.mem_append.1 hq with hq | hq
    · obtain ⟨n, hn, hchild⟩ := h.child q hq i hi
      exact ⟨n, List.mem_append_left nodes' hn, hchild⟩
    · obtain ⟨n, hn, hchild⟩ := h'.child q hq i hi
      exact ⟨n, List.mem_append_right nodes hn, hchild⟩
  increasing := List.forall_mem_append.2 ⟨h.increasing, h'.increasing⟩

/-- The children of a node are in order behind it, and are its children. -/
def Heads (q : Node) (nodes : List Node) : Prop :=
  (q.id :: q.children).Pairwise (· < ·) ∧
    ∀ i ∈ q.children, ∃ n ∈ nodes, n.id = i ∧ n.parent = some q.id

/-- A node hangs below its parent with what hangs below it. -/
theorem Hangs.cons {q : Node} (h : Hangs q (q.id + 1) nodes) (hheads : q.Heads nodes)
    (hparent : q.parent = some p.id) (hchild : q.id ∈ p.children) (hunder : p.Under q) :
    Hangs p q.id (q :: nodes) where
  ids := by
    rw [List.map_cons, h.ids, List.length_cons, List.range'_succ]
  parent := by
    intro n hn
    rcases List.mem_cons.1 hn with rfl | hn
    · exact ⟨p, List.mem_cons_self, hparent, hchild, hunder⟩
    · obtain ⟨r, hr, hrest⟩ := h.parent n hn
      exact ⟨r, List.mem_cons_of_mem p hr, hrest⟩
  child := by
    intro r hr i hi
    have hbelow : ∃ n ∈ nodes, n.id = i ∧ n.parent = some r.id := by
      rcases List.mem_cons.1 hr with rfl | hr
      · exact hheads.2 i hi
      · exact h.child r hr i hi
    obtain ⟨n, hn, hrest⟩ := hbelow
    exact ⟨n, List.mem_cons_of_mem q hn, hrest⟩
  increasing := List.forall_mem_cons.2 ⟨hheads.1, h.increasing⟩

/-! ### The whole table -/

section Root

variable (hangs : Hangs p (p.id + 1) nodes) (heads : p.Heads nodes)

include hangs

theorem Hangs.ids_cons :
    (p :: nodes).map Node.id = List.range' p.id (p :: nodes).length := by
  rw [List.map_cons, hangs.ids, List.length_cons, List.range'_succ]

/-- Numbers tell the nodes of a table apart. -/
theorem Hangs.eq_of_id_eq {m n : Node} (hm : m ∈ p :: nodes) (hn : n ∈ p :: nodes)
    (h : m.id = n.id) : m = n :=
  List.inj_on_of_nodup_map (hangs.ids_cons ▸ List.nodup_range') hm hn h

theorem Hangs.id_of_getElem? {i : Nat} {n : Node} (h : (p :: nodes)[i]? = some n) :
    n.id = p.id + i := by
  have hid : ((p :: nodes).map Node.id)[i]? = some n.id := by rw [List.getElem?_map, h]; rfl
  obtain ⟨hi, -⟩ := List.getElem?_eq_some_iff.1 h
  rw [hangs.ids_cons, List.getElem?_range' hi] at hid
  have heq := Option.some.inj hid
  omega

include heads

theorem Hangs.child_cons : ∀ q ∈ p :: nodes, ∀ i ∈ q.children,
    ∃ n ∈ nodes, n.id = i ∧ n.parent = some q.id :=
  List.forall_mem_cons.2 ⟨heads.2, hangs.child⟩

theorem Hangs.increasing_cons : ∀ q ∈ p :: nodes, (q.id :: q.children).Pairwise (· < ·) :=
  List.forall_mem_cons.2 ⟨heads.1, hangs.increasing⟩

/-- **A node is a child of its parent once, and of no other node.** -/
theorem Hangs.count_children {n : Node} (hn : n ∈ nodes) :
    ∃ q ∈ p :: nodes, n.parent = some q.id ∧ q.id < n.id ∧ q.Under n ∧
      ∀ m ∈ p :: nodes, m.children.count n.id = if m.id = q.id then 1 else 0 := by
  obtain ⟨q, hq, hparent, hchild, hunder⟩ := hangs.parent n hn
  have hincreasing := List.pairwise_cons.1 (hangs.increasing_cons heads q hq)
  refine ⟨q, hq, hparent, hincreasing.1 n.id hchild, hunder, fun m hm => ?_⟩
  split_ifs with hid
  · obtain rfl := hangs.eq_of_id_eq hm hq hid
    have hnodup : m.children.Nodup := hincreasing.2.imp Nat.ne_of_lt
    exact List.count_eq_one_of_mem hnodup hchild
  · refine List.count_eq_zero_of_not_mem fun hmem => hid ?_
    -- a child of `m` has `m` as its parent, and `n` is the only node with its number
    obtain ⟨n', hn', hid', hparent'⟩ := hangs.child_cons heads m hm n.id hmem
    obtain rfl := hangs.eq_of_id_eq (List.mem_cons_of_mem p hn') (List.mem_cons_of_mem p hn) hid'
    exact Option.some.inj (hparent'.symm.trans hparent)

end Root

end Node

/-! ### The nodes of conditions -/

namespace Condition

theorem size_pos (c : Condition) : 0 < c.size := by
  cases c <;> rw [size] <;> omega

theorem pairwise_ids {k id : Nat} (h : k < id) (cs : List Condition) :
    (k :: ids id cs).Pairwise (· < ·) := by
  induction cs generalizing k id with
  | nil => simp [ids]
  | cons c cs ih =>
    have htail : (id :: ids (id + c.size) cs).Pairwise (· < ·) :=
      ih (Nat.lt_add_of_pos_right c.size_pos)
    rw [ids, List.pairwise_cons]
    refine ⟨fun i hi => ?_, htail⟩
    rcases List.mem_cons.1 hi with rfl | hi
    · exact h
    · exact Nat.lt_trans h ((List.pairwise_cons.1 htail).1 i hi)

theorem exists_mem_nodesAt (parent id : Nat) (c : Condition) :
    ∃ n ∈ c.nodesAt parent id, n.id = id ∧ n.parent = some parent := by
  cases c <;> rw [nodesAt] <;> exact ⟨_, List.mem_cons_self, rfl, rfl⟩

theorem exists_mem_nodesOfAll {parent i : Nat} {id : Nat} {cs : List Condition}
    (h : i ∈ ids id cs) : ∃ n ∈ nodesOfAll parent id cs, n.id = i ∧ n.parent = some parent := by
  induction cs generalizing id with
  | nil => cases h
  | cons c cs ih =>
    rw [nodesOfAll]
    rcases List.mem_cons.1 h with rfl | h
    · obtain ⟨n, hn, hrest⟩ := exists_mem_nodesAt parent i c
      exact ⟨n, List.mem_append_left _ hn, hrest⟩
    · obtain ⟨n, hn, hrest⟩ := ih h
      exact ⟨n, List.mem_append_right _ hn, hrest⟩

/-- A node stands before the nodes of its children. -/
theorem heads_nodesOfAll {q : Node} {cs : List Condition} (h : q.children = ids (q.id + 1) cs) :
    q.Heads (nodesOfAll q.id (q.id + 1) cs) := by
  rw [Node.Heads, h]
  exact ⟨pairwise_ids (Nat.lt_succ_self _) cs, fun i hi => exists_mem_nodesOfAll hi⟩

/-- Whether a node is the group `g`. -/
def IsGroup (p : Node) (g : Group) : Prop :=
  p.kind = .group g.junction ∧ p.negated = g.negated

theorem under_of_holds {p q : Node} {g inner : Group} (hp : IsGroup p g) (hq : IsGroup q inner)
    (h : g.Holds inner) : p.Under q := by
  obtain ⟨junction, negated⟩ := g
  obtain ⟨junction', negated'⟩ := inner
  obtain ⟨hpkind, hpnegated⟩ := hp
  obtain ⟨hqkind, hqnegated⟩ := hq
  simp_all [Node.Under, Group.Holds]

mutual

/-- **The nodes of a flattened condition hang below its parent.** -/
theorem hangs_nodesAt {p : Node} {g : Group} (hp : IsGroup p g) :
    (c : Condition) → c.Flattened g → ∀ id ∈ p.children, Node.Hangs p id (c.nodesAt p.id id)
  | leaf path test, _, id, hid => by
      rw [nodesAt]
      let q : Node := ⟨id, .test test.relation, test.negated, test.operands.length,
        some (test.predicate path), none, [], some p.id⟩
      have hbelow : Node.Hangs q (id + 1) [] := Node.hangs_nil
      exact hbelow.cons ⟨List.pairwise_singleton _ _, nofun⟩ rfl hid ⟨nofun, nofun⟩
  | group junction negated children, h, id, hid => by
      rw [Flattened] at h
      rw [nodesAt]
      let q : Node :=
        ⟨id, .group junction, negated, 0, none, none, ids (id + 1) children, some p.id⟩
      have hq : IsGroup q ⟨junction, negated⟩ := ⟨rfl, rfl⟩
      have hbelow : Node.Hangs q (id + 1) (nodesOfAll id (id + 1) children) :=
        hangs_nodesOfAll hq children h.2 (id + 1) fun _ hi => hi
      exact hbelow.cons (heads_nodesOfAll rfl) rfl hid (under_of_holds hp hq h.1)
  | within path children, h, id, hid => by
      rw [Flattened] at h
      rw [nodesAt]
      let q : Node :=
        ⟨id, .group .and, false, 0, none, some path, ids (id + 1) children, some p.id⟩
      have hq : IsGroup q .root := ⟨rfl, rfl⟩
      have hbelow : Node.Hangs q (id + 1) (nodesOfAll id (id + 1) children) :=
        hangs_nodesOfAll hq children h (id + 1) fun _ hi => hi
      exact hbelow.cons (heads_nodesOfAll rfl) rfl hid ⟨nofun, nofun⟩

theorem hangs_nodesOfAll {p : Node} {g : Group} (hp : IsGroup p g) :
    (cs : List Condition) → AllFlattened g cs → ∀ id, ids id cs ⊆ p.children →
      Node.Hangs p id (nodesOfAll p.id id cs)
  | [], _, id, _ => by
      rw [nodesOfAll]
      exact Node.hangs_nil
  | c :: cs, h, id, hids => by
      rw [AllFlattened] at h
      rw [ids, List.cons_subset] at hids
      rw [nodesOfAll]
      refine (hangs_nodesAt hp c h.1 id hids.1).append ?_
      rw [length_nodesAt]
      exact hangs_nodesOfAll hp cs h.2 (id + c.size) hids.2

end

mutual

/-- **A walk meets the nodes of a condition in the order of the table.** -/
theorem preorder_nodesAt {nodes : List Node} :
    (c : Condition) → ∀ (parent id bound : Nat), c.size ≤ bound →
      StandsAt (c.nodesAt parent id) id nodes → Node.preorder nodes bound id = List.range' id c.size
  | leaf path test, parent, id, bound + 1, _, h => by
      rw [nodesAt] at h
      rw [Node.preorder_of_getElem? bound h.getElem?]
      rfl
  | group junction negated children, parent, id, bound + 1, hbound, h => by
      rw [size] at hbound
      rw [nodesAt] at h
      have hchildren := preorder_nodesOfAll children id (id + 1) bound (by omega) h.tail
      rw [Node.preorder_of_getElem? bound h.getElem?, size, Nat.add_comm 1, List.range'_succ,
        ← hchildren]
  | within path children, parent, id, bound + 1, hbound, h => by
      rw [size] at hbound
      rw [nodesAt] at h
      have hchildren := preorder_nodesOfAll children id (id + 1) bound (by omega) h.tail
      rw [Node.preorder_of_getElem? bound h.getElem?, size, Nat.add_comm 1, List.range'_succ,
        ← hchildren]
  | c, _, _, 0, hbound, _ => absurd c.size_pos (by omega)

theorem preorder_nodesOfAll {nodes : List Node} :
    (cs : List Condition) → ∀ (parent id bound : Nat), sizeOfAll cs ≤ bound →
      StandsAt (nodesOfAll parent id cs) id nodes →
      (ids id cs).flatMap (Node.preorder nodes bound) = List.range' id (sizeOfAll cs)
  | [], _, _, _, _, _ => rfl
  | c :: cs, parent, id, bound, hbound, h => by
      rw [sizeOfAll] at hbound
      rw [nodesOfAll, standsAt_append, length_nodesAt] at h
      rw [ids, List.flatMap_cons, preorder_nodesAt c parent id bound (by omega) h.1,
        preorder_nodesOfAll cs parent (id + c.size) bound (by omega) h.2, sizeOfAll,
        List.range'_append_1]

end

theorem takes_of_sized {t : Test} (h : t.Sized) : t.relation.Takes t.operands.length := by
  unfold Test.Sized at h
  cases hrelation : t.relation with
  | present => simpa [hrelation, Relation.Takes] using h
  | oneOf | all => exact List.length_pos_iff.2 (by simpa [hrelation] using h)
  | _ => simpa [hrelation, Relation.Takes] using h

theorem ids_ne_nil {id : Nat} {cs : List Condition} (h : cs ≠ []) : ids id cs ≠ [] := by
  rwa [← List.length_pos_iff, length_ids, List.length_pos_iff]

mutual

/-- **The nodes of a well-formed condition are shaped as their kinds ask.** -/
theorem shaped_nodesAt (parent : Nat) :
    (c : Condition) → c.WellFormed → ∀ id, ∀ n ∈ c.nodesAt parent id, n.Shaped
  | leaf path test, h, id => by
      rw [nodesAt, List.forall_mem_singleton]
      exact ⟨nofun, rfl, rfl, takes_of_sized h.2⟩
  | group junction negated children, h, id => by
      rw [nodesAt, List.forall_mem_cons]
      exact ⟨⟨rfl, rfl, fun _ => ids_ne_nil h.1, fun hnone => absurd rfl hnone⟩,
        shaped_nodesOfAll id children h.2 (id + 1)⟩
  | within path children, h, id => by
      rw [nodesAt, List.forall_mem_cons]
      exact ⟨⟨rfl, rfl, fun _ => ids_ne_nil h.2.1, fun _ => ⟨rfl, rfl⟩⟩,
        shaped_nodesOfAll id children h.2.2 (id + 1)⟩

theorem shaped_nodesOfAll (parent : Nat) :
    (cs : List Condition) → AllWellFormed cs → ∀ id, ∀ n ∈ nodesOfAll parent id cs, n.Shaped
  | [], _, _ => nofun
  | c :: cs, h, id => by
      rw [nodesOfAll, List.forall_mem_append]
      exact ⟨shaped_nodesAt parent c h.1 id, shaped_nodesOfAll parent cs h.2 (id + c.size)⟩

end

mutual

/-- The tests of a condition have all its operands. -/
theorem sum_nodesAt (parent id : Nat) : (c : Condition) →
    ((c.nodesAt parent id).map Node.operandCount).sum = (operands [c]).length
  | leaf path test => by
      rw [nodesAt, operands_leaf]
      simp
  | group junction negated children => by
      rw [nodesAt, operands_group, List.map_cons, List.sum_cons, sum_nodesOfAll, Nat.zero_add]
  | within path children => by
      rw [nodesAt, operands_within, List.map_cons, List.sum_cons, sum_nodesOfAll, Nat.zero_add]

theorem sum_nodesOfAll (parent id : Nat) : (cs : List Condition) →
    ((nodesOfAll parent id cs).map Node.operandCount).sum = (operands cs).length
  | [] => rfl
  | c :: cs => by
      rw [nodesOfAll, operands_cons, List.map_append, List.sum_append, sum_nodesAt,
        sum_nodesOfAll, List.length_append]

end

end Condition

/-! ### Filters -/

/-- **Well-formed and flattened conditions have a layout.** -/
theorem Condition.isLayout_nodes {cs : List Condition} (hwell : AllWellFormed cs)
    (hflat : AllFlattened .root cs) : Node.IsLayout (nodes cs) (operands cs) := by
  let root : Node := ⟨0, .group .and, false, 0, none, none, ids 1 cs, none⟩
  have hheads : root.Heads (nodesOfAll 0 1 cs) := heads_nodesOfAll rfl
  have hhangs : root.Hangs 1 (nodesOfAll 0 1 cs) :=
    hangs_nodesOfAll (p := root) (g := .root) ⟨rfl, rfl⟩ cs hflat 1 fun _ hi => hi
  constructor
  case root => exact ⟨ids 1 cs, rfl⟩
  case id_eq =>
    intro i n hn
    have hid := hhangs.id_of_getElem? hn
    rwa [Nat.zero_add] at hid
  case parent =>
    intro n hn hid
    rcases List.mem_cons.1 hn with rfl | hn
    · exact absurd rfl hid
    · exact hhangs.count_children hheads hn
  case child =>
    intro p hp i hi
    obtain ⟨n, hn, hrest⟩ := hhangs.child_cons hheads p hp i hi
    exact ⟨n, List.mem_cons_of_mem _ hn, hrest⟩
  case preorder =>
    intro bound hbound
    rw [nodes, List.length_cons, length_nodesOfAll] at hbound ⊢
    obtain ⟨bound, rfl⟩ := Nat.exists_eq_add_of_le' hbound
    have hstands : StandsAt (nodesOfAll 0 1 cs) 1 (root :: nodesOfAll 0 1 cs) := List.prefix_refl _
    have hwalk := preorder_nodesOfAll cs 0 1 (bound + sizeOfAll cs) (by omega) hstands
    rw [← Nat.add_assoc, Node.preorder_of_getElem? (n := root) _ rfl, List.range_eq_range',
      List.range'_succ]
    exact congrArg (0 :: ·) hwalk
  case shaped =>
    refine List.forall_mem_cons.2 ⟨?_, shaped_nodesOfAll 0 cs hwell 1⟩
    exact ⟨rfl, rfl, fun hid => absurd rfl hid, fun hnone => absurd rfl hnone⟩
  case operands => rw [nodes, List.map_cons, List.sum_cons, sum_nodesOfAll, Nat.zero_add]

/-- **The nodes of an accepted filter are a layout of its operands.** -/
theorem Filter.isLayout_nodes_operands {d : Json} {f : Filter} (h : Filter.ofJson d = .ok f) :
    Node.IsLayout (Condition.nodes f.conditions) f.operands := by
  have hflat : Condition.AllFlattened .root f.conditions := by
    obtain ⟨members, clauses, -, rfl, -⟩ := Filter.reads_of_ofJson h
    exact Formula.flattened_lowerAll .root _
  exact Condition.isLayout_nodes (Filter.allWellFormed_conditions h) hflat

/-- A disjunction with a conjunction of its own for a field, with the opposite tests of a negated
field placed directly in it, and with a negated disjunction about the elements of a field. -/
theorem Filter.isLayout_nodes_operands_nested :
    ∃ d, d = Json.object
        [("$or", .array
            [.object [("a", .object [("$gt", .number (.ofNat 1)), ("$lt", .number (.ofNat 9))])],
              .object [("b", .object [("$not", .object
                [("$in", .array [.string "x", .string "y"]), ("$exists", .bool true)])])],
              .object [("c", .object [("$nor", .array
                [.object [("e", .null)], .object [("g", .array [.bool true])]])])]])] ∧
      ∃ f, Filter.ofJson d = .ok f ∧
        (Condition.nodes f.conditions).map Node.children =
          [[1], [2, 5, 6, 7], [3, 4], [], [], [], [], [8], [9, 10], [], []] ∧
        Node.IsLayout (Condition.nodes f.conditions) f.operands := by
  have hread {d : Json} {children : List (List Nat)}
      (h : (Filter.ofJson d).toOption.map
        (fun f => (Condition.nodes f.conditions).map Node.children) = some children) :
      ∃ f, Filter.ofJson d = .ok f ∧ (Condition.nodes f.conditions).map Node.children = children ∧
        Node.IsLayout (Condition.nodes f.conditions) f.operands := by
    obtain ⟨f, hf, hchildren⟩ := exists_of_toOption_map h
    exact ⟨f, hf, hchildren, Filter.isLayout_nodes_operands hf⟩
  exact exists_eq_left.2 (hread (by decide +kernel))

end DocFilter
