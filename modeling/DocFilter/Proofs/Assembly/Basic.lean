import DocFilter.Proofs.Layout.Table
import DocFilter.Proofs.Reading.Documents

/-!
# Assembling filters

A filter can be assembled member by member. The nodes read so far stand in one table and the
operands in one list; a member is placed under a node that is there already, by what kind of node
that is, and its own nodes get the next numbers. Beside the table stand the other restrictions and
the sort order. Placing the members of a document under the root in turn gives the table, the
operands and the restrictions of its filter.

## Main definitions

* `Node.Numbered`: the nodes of a part of a table stand at their numbers.
* `Node.graft`: a table with some conditions placed under one of its nodes.
* `Assembly`: what has been read of a filter.
* `Assembly.load`, `Assembly.loadAll`: an assembly with a member, or with some in turn, placed under
  a node.

## Main results

* `Node.graft_append`: conditions may be placed one after the other.
* `Assembly.loadAll_eq_map`: placing members in turn places the conditions of all of them.
* `Assembly.foldl_add`: a filter is assembled from its contributions.
-/

namespace DocFilter

/-! ### Numbers -/

namespace Node

/-- The nodes of a part of a table are numbered from `first` on, and have no children behind it. -/
structure Numbered (first : Nat) (nodes : List Node) : Prop where
  ids : nodes.map Node.id = List.range' first nodes.length
  child_lt : ∀ n ∈ nodes, ∀ i ∈ n.children, i < first + nodes.length

namespace Numbered

variable {first : Nat} {nodes nodes' : List Node}

theorem nil : Numbered first [] where
  ids := rfl
  child_lt := nofun

theorem append (h : Numbered first nodes) (h' : Numbered (first + nodes.length) nodes') :
    Numbered first (nodes ++ nodes') where
  ids := by rw [List.map_append, h.ids, h'.ids, List.length_append, List.range'_append_1]
  child_lt := by
    intro n hn i hi
    rw [List.length_append]
    rcases List.mem_append.1 hn with hn | hn
    · have hlt := h.child_lt n hn i hi
      omega
    · have hlt := h'.child_lt n hn i hi
      omega

theorem cons {n : Node} (hid : n.id = first) (h : Numbered (first + 1) nodes)
    (hchild : ∀ i ∈ n.children, i < first + 1 + nodes.length) : Numbered first (n :: nodes) where
  ids := by rw [List.map_cons, hid, h.ids, List.length_cons, List.range'_succ]
  child_lt := by
    rw [List.length_cons, Nat.add_comm nodes.length, ← Nat.add_assoc]
    exact List.forall_mem_cons.2 ⟨hchild, h.child_lt⟩

theorem bounds (h : Numbered first nodes) {n : Node} (hn : n ∈ nodes) :
    first ≤ n.id ∧ n.id < first + nodes.length := by
  have hid : n.id ∈ nodes.map Node.id := List.mem_map_of_mem hn
  rw [h.ids] at hid
  exact List.mem_range'_1.1 hid

end Numbered

end Node

namespace Condition

theorem ids_append (id : Nat) (cs ds : List Condition) :
    ids id (cs ++ ds) = ids id cs ++ ids (id + sizeOfAll cs) ds := by
  induction cs generalizing id with
  | nil => rw [List.nil_append, ids, List.nil_append, sizeOfAll, Nat.add_zero]
  | cons c cs ih => rw [List.cons_append, ids, ih, ids, List.cons_append, sizeOfAll, Nat.add_assoc]

theorem nodesOfAll_append (parent id : Nat) (cs ds : List Condition) :
    nodesOfAll parent id (cs ++ ds) =
      nodesOfAll parent id cs ++ nodesOfAll parent (id + sizeOfAll cs) ds := by
  induction cs generalizing id with
  | nil => rw [List.nil_append, nodesOfAll, List.nil_append, sizeOfAll, Nat.add_zero]
  | cons c cs ih =>
    rw [List.cons_append, nodesOfAll, ih, nodesOfAll, List.append_assoc, sizeOfAll, Nat.add_assoc]

theorem bounds_of_mem_ids {id i : Nat} {cs : List Condition} (h : i ∈ ids id cs) :
    id ≤ i ∧ i < id + sizeOfAll cs := by
  induction cs generalizing id with
  | nil => cases h
  | cons c cs ih =>
    have hpos := c.size_pos
    rw [sizeOfAll]
    rcases List.mem_cons.1 h with rfl | h
    · omega
    · have hbounds := ih h
      omega

mutual

theorem numbered_nodesAt (parent id : Nat) :
    (c : Condition) → Node.Numbered id (c.nodesAt parent id)
  | leaf path test => by
      rw [nodesAt]
      exact .cons rfl .nil fun i hi => absurd hi List.not_mem_nil
  | group junction negated children => by
      rw [nodesAt]
      refine .cons rfl (numbered_nodesOfAll id (id + 1) children) fun i hi => ?_
      rw [length_nodesOfAll]
      exact (bounds_of_mem_ids hi).2
  | within path children => by
      rw [nodesAt]
      refine .cons rfl (numbered_nodesOfAll id (id + 1) children) fun i hi => ?_
      rw [length_nodesOfAll]
      exact (bounds_of_mem_ids hi).2

theorem numbered_nodesOfAll (parent id : Nat) :
    (cs : List Condition) → Node.Numbered id (nodesOfAll parent id cs)
  | [] => by
      rw [nodesOfAll]
      exact .nil
  | c :: cs => by
      rw [nodesOfAll]
      refine (numbered_nodesAt parent id c).append ?_
      rw [length_nodesAt]
      exact numbered_nodesOfAll parent (id + c.size) cs

end

end Condition

/-! ### Tables -/

namespace Node

/-- The node with further children, if it is the one with the number `parent`. -/
def adopt (parent : Nat) (ids : List Nat) (n : Node) : Node :=
  if n.id = parent then { n with children := n.children ++ ids } else n

/-- The table with some conditions placed under the node with the number `parent`. -/
def graft (nodes : List Node) (parent : Nat) (cs : List Condition) : List Node :=
  nodes.map (adopt parent (Condition.ids nodes.length cs)) ++
    Condition.nodesOfAll parent nodes.length cs

/-- The kind of group that a node is. A test takes no part in what is placed under it, as a negated
disjunction does not. -/
def group (n : Node) : Group :=
  match n.kind with
  | .group junction => ⟨junction, n.negated⟩
  | .test _ => ⟨.or, true⟩

/-- The kind of group that the node with a number is. -/
def groupAt (nodes : List Node) (i : Nat) : Group :=
  (nodes[i]?.map group).getD ⟨.or, true⟩

variable {nodes : List Node} {parent : Nat}

@[simp] theorem id_adopt (ids : List Nat) (n : Node) : (n.adopt parent ids).id = n.id := by
  unfold adopt
  split_ifs <;> rfl

@[simp] theorem group_adopt (ids : List Nat) (n : Node) :
    (n.adopt parent ids).group = n.group := by
  unfold adopt
  split_ifs <;> rfl

theorem adopt_nil (n : Node) : n.adopt parent [] = n := by
  unfold adopt
  split_ifs
  · rw [List.append_nil]
  · rfl

theorem adopt_adopt (ids ids' : List Nat) (n : Node) :
    (n.adopt parent ids).adopt parent ids' = n.adopt parent (ids ++ ids') := by
  unfold adopt
  split_ifs with h
  · simp only [List.append_assoc]
  · rfl

theorem length_graft (nodes : List Node) (parent : Nat) (cs : List Condition) :
    (graft nodes parent cs).length = nodes.length + Condition.sizeOfAll cs := by
  rw [graft, List.length_append, List.length_map, Condition.length_nodesOfAll]

theorem graft_ne_nil (h : nodes ≠ []) (parent : Nat) (cs : List Condition) :
    graft nodes parent cs ≠ [] :=
  List.append_ne_nil_of_left_ne_nil (by simpa using h) _

theorem Numbered.graft (h : Numbered 0 nodes) (parent : Nat) (cs : List Condition) :
    Numbered 0 (graft nodes parent cs) where
  ids := by
    have hnew := Condition.numbered_nodesOfAll parent nodes.length cs
    have hids (ids : List Nat) : Node.id ∘ adopt parent ids = Node.id := funext (id_adopt ids)
    rw [length_graft, Node.graft, List.map_append, List.map_map, hids, h.ids, hnew.ids,
      Condition.length_nodesOfAll, ← List.range'_append_1, Nat.zero_add]
  child_lt := by
    intro n hn i hi
    rw [length_graft, Nat.zero_add]
    rcases List.mem_append.1 hn with hn | hn
    · obtain ⟨m, hm, rfl⟩ := List.mem_map.1 hn
      have hold := h.child_lt m hm
      unfold adopt at hi
      split_ifs at hi
      · rcases List.mem_append.1 hi with hi | hi
        · have hlt := hold i hi
          omega
        · exact (Condition.bounds_of_mem_ids hi).2
      · have hlt := hold i hi
        omega
    · have hlt := (Condition.numbered_nodesOfAll parent nodes.length cs).child_lt n hn i hi
      rwa [Condition.length_nodesOfAll] at hlt

theorem graft_nil (nodes : List Node) (parent : Nat) : graft nodes parent [] = nodes := by
  rw [graft, Condition.ids, Condition.nodesOfAll, List.append_nil]
  exact (List.map_congr_left fun n _ => adopt_nil n).trans (List.map_id nodes)

theorem map_adopt_eq_self {ids : List Nat} (h : ∀ n ∈ nodes, n.id ≠ parent) :
    nodes.map (adopt parent ids) = nodes :=
  (List.map_congr_left fun n hn => if_neg (h n hn)).trans (List.map_id nodes)

/-- **Conditions may be placed one after the other.** -/
theorem graft_append (hparent : parent < nodes.length) (cs ds : List Condition) :
    graft nodes parent (cs ++ ds) = graft (graft nodes parent cs) parent ds := by
  have hnew : (Condition.nodesOfAll parent nodes.length cs).map
      (adopt parent (Condition.ids (nodes.length + Condition.sizeOfAll cs) ds)) =
        Condition.nodesOfAll parent nodes.length cs := by
    refine map_adopt_eq_self fun n hn => ?_
    have hle := ((Condition.numbered_nodesOfAll parent nodes.length cs).bounds hn).1
    omega
  rw [graft, graft, length_graft, graft, List.map_append, List.map_map, hnew, Condition.ids_append,
    Condition.nodesOfAll_append, List.append_assoc]
  congr 2
  funext n
  exact (adopt_adopt _ _ n).symm

theorem groupAt_graft {i : Nat} (hi : i < nodes.length) (cs : List Condition) :
    groupAt (graft nodes parent cs) i = groupAt nodes i := by
  have hlt : i < (nodes.map (adopt parent (Condition.ids nodes.length cs))).length := by
    rwa [List.length_map]
  rw [groupAt, graft, List.getElem?_append_left hlt, List.getElem?_map, Option.map_map, groupAt]
  congr 2
  exact funext (group_adopt _)

end Node

theorem Condition.numbered_nodes (cs : List Condition) : Node.Numbered 0 (Condition.nodes cs) := by
  refine .cons rfl (numbered_nodesOfAll 0 1 cs) fun i hi => ?_
  rw [length_nodesOfAll]
  exact (bounds_of_mem_ids hi).2

/-- The table of some conditions is the bare root with the conditions placed under it. -/
theorem Condition.nodes_eq_graft (cs : List Condition) :
    Condition.nodes cs = Node.graft (Condition.nodes []) 0 cs :=
  rfl

/-! ### Formulas in a row -/

namespace Formula

theorem lowerAll_append (g : Group) (fs fs' : List Formula) :
    lowerAll g (fs ++ fs') = lowerAll g fs ++ lowerAll g fs' := by
  induction fs with
  | nil => rfl
  | cons f fs ih => rw [List.cons_append, lowerAll, ih, lowerAll, List.append_assoc]

theorem lowerItems_append (g : Group) (items items' : List (List Formula)) :
    lowerItems g (items ++ items') = lowerItems g items ++ lowerItems g items' := by
  induction items with
  | nil => rfl
  | cons fs items ih => rw [List.cons_append, lowerItems, ih, lowerItems, List.append_assoc]

theorem testsOfAll_append (fs fs' : List Formula) :
    testsOfAll (fs ++ fs') = testsOfAll fs ++ testsOfAll fs' := by
  induction fs with
  | nil => rfl
  | cons f fs ih => rw [List.cons_append, testsOfAll, ih, testsOfAll, List.append_assoc]

theorem testsOfItems_eq (items : List (List Formula)) :
    testsOfItems items = testsOfAll items.flatten := by
  induction items with
  | nil => rfl
  | cons fs items ih => rw [testsOfItems, ih, List.flatten_cons, testsOfAll_append]

theorem any_requiresModern (fs : List Formula) :
    fs.any requiresModern = (testsOfAll fs).any Test.requiresModern := by
  induction fs with
  | nil => rfl
  | cons f fs ih => rw [List.any_cons, ih, testsOfAll, List.any_append, requiresModern]

end Formula

/-- A further formula adds its conditions behind those of a filter. -/
theorem Filter.conditions_concat_formula (clauses : List Clause) (f : Formula) :
    (ofClauses (clauses ++ [.formula f])).conditions =
      (ofClauses clauses).conditions ++ f.lower .root := by
  simp [ofClauses, Clause.formula?, Formula.lowerAll_append, Formula.lowerAll]

/-! ### Assemblies -/

/-- What has been read of a filter: the table of nodes with the operands, and what stands beside
it. -/
@[ext] structure Assembly where
  nodes : List Node
  operands : List Operand
  keys : List Bind
  comparisons : List Comparison
  spatial : List Spatial
  textSearches : List TextSearch
  sort : Option SortSpec
  requiresModern : Bool
  /-- There is a root. -/
  nodes_ne_nil : nodes ≠ []
  numbered : Node.Numbered 0 nodes

namespace Assembly

/-- A whole filter as an assembly. -/
def ofFilter (f : Filter) : Assembly where
  nodes := Condition.nodes f.conditions
  operands := f.operands
  keys := f.keys
  comparisons := f.comparisons
  spatial := f.spatial
  textSearches := f.textSearches
  sort := f.sort
  requiresModern := f.requiresModern
  nodes_ne_nil := List.cons_ne_nil _ _
  numbered := Condition.numbered_nodes f.conditions

/-- Nothing but the root. -/
def empty : Assembly :=
  ofFilter (.ofClauses [])

/-- The assembly with some conditions placed under a node. -/
def insert (t : Assembly) (parent : Nat) (cs : List Condition) (modern : Bool) : Assembly :=
  { t with
    nodes := Node.graft t.nodes parent cs
    operands := t.operands ++ Condition.operands cs
    requiresModern := t.requiresModern || modern
    nodes_ne_nil := Node.graft_ne_nil t.nodes_ne_nil parent cs
    numbered := t.numbered.graft parent cs }

/-- The assembly with a formula placed under a node. -/
def place (t : Assembly) (parent : Nat) (f : Formula) : Assembly :=
  t.insert parent (f.lower (Node.groupAt t.nodes parent)) f.requiresModern

/-- The assembly with the formulas of a conjunction placed under a node. -/
def placeAll (t : Assembly) (parent : Nat) (fs : List Formula) : Assembly :=
  t.insert parent (Formula.lowerAll (Node.groupAt t.nodes parent) fs)
    (fs.any Formula.requiresModern)

/-- The assembly with a member of a filter placed under a node. -/
def load (t : Assembly) (scope : Scope) (parent : Nat) (key : String) (value : Json) :
    Except Error Assembly :=
  (Formula.read scope key value).map (t.place parent)

/-- The assembly with the members of a filter that is part of another placed under a node, one after
the other. -/
def loadAll (t : Assembly) (parent : Nat) (members : List (String × Json)) :
    Except Error Assembly :=
  members.foldlM (fun t (key, value) => t.load .nested parent key value) t

/-- The assembly with what a member of a document contributes. -/
def add (t : Assembly) : Clause → Assembly
  | .formula f => t.place 0 f
  | .keys ks => { t with keys := t.keys ++ ks }
  | .comparisons cs => { t with comparisons := t.comparisons ++ cs }
  | .spatial s => { t with spatial := t.spatial ++ [s] }
  | .textSearch s => { t with textSearches := t.textSearches ++ [s] }
  | .sort s => { t with sort := t.sort.or (some s) }

/-! ### Members in turn -/

variable {t : Assembly} {parent : Nat}

theorem insert_insert (hparent : parent < t.nodes.length) (cs ds : List Condition)
    (modern modern' : Bool) :
    (t.insert parent cs modern).insert parent ds modern' =
      t.insert parent (cs ++ ds) (modern || modern') := by
  ext1
  case nodes => exact (Node.graft_append hparent cs ds).symm
  case operands => simp only [insert, Condition.operands_append, List.append_assoc]
  case requiresModern => simp only [insert, Bool.or_assoc]
  all_goals rfl

theorem placeAll_nil (t : Assembly) (parent : Nat) : t.placeAll parent [] = t := by
  ext1
  case nodes => exact Node.graft_nil t.nodes parent
  case operands => exact List.append_nil t.operands
  case requiresModern => exact Bool.or_false t.requiresModern
  all_goals rfl

theorem placeAll_cons (hparent : parent < t.nodes.length) (f : Formula) (fs : List Formula) :
    t.placeAll parent (f :: fs) = (t.place parent f).placeAll parent fs := by
  have hgroup : Node.groupAt (t.place parent f).nodes parent = Node.groupAt t.nodes parent :=
    Node.groupAt_graft hparent _
  rw [placeAll, placeAll, hgroup, place, insert_insert hparent, Formula.lowerAll, List.any_cons]

theorem length_insert (t : Assembly) (parent : Nat) (cs : List Condition) (modern : Bool) :
    (t.insert parent cs modern).nodes.length = t.nodes.length + Condition.sizeOfAll cs :=
  Node.length_graft t.nodes parent cs

theorem lt_length_insert (hparent : parent < t.nodes.length) (cs : List Condition)
    (modern : Bool) : parent < (t.insert parent cs modern).nodes.length := by
  rw [length_insert]
  omega

/-- **Placing members in turn places the formulas of all of them**, with the same error if one of
them has none. -/
theorem loadAll_eq_map (hparent : parent < t.nodes.length) (members : List (String × Json)) :
    t.loadAll parent members = (Formula.readMembers members).map (t.placeAll parent) := by
  induction members generalizing t with
  | nil => exact congrArg Except.ok (placeAll_nil t parent).symm
  | cons member members ih =>
    obtain ⟨key, value⟩ := member
    rw [loadAll, List.foldlM_cons, Formula.readMembers]
    dsimp only [load]
    cases Formula.read .nested key value with
    | error e => rfl
    | ok f =>
      have hlt : parent < (t.place parent f).nodes.length := lt_length_insert hparent _ _
      have hrest := ih hlt
      rw [loadAll] at hrest
      refine hrest.trans ?_
      cases Formula.readMembers members with
      | error e => rfl
      | ok fs => exact congrArg Except.ok (placeAll_cons hparent f fs).symm

/-! ### Whole filters -/

/-- The nodes of a whole filter have a plain conjunction at their root. -/
theorem groupAt_ofFilter (f : Filter) : Node.groupAt (ofFilter f).nodes 0 = .root := by
  rfl

theorem ofFilter_formula (clauses : List Clause) (f : Formula) :
    ofFilter (.ofClauses (clauses ++ [.formula f])) =
      (ofFilter (.ofClauses clauses)).insert 0 (f.lower .root) f.requiresModern := by
  have hconditions := Filter.conditions_concat_formula clauses f
  ext1
  case nodes =>
    simp only [ofFilter, insert]
    rw [hconditions, Condition.nodes_eq_graft, Node.graft_append (by decide),
      ← Condition.nodes_eq_graft]
  case operands =>
    simp only [ofFilter, insert, Filter.operands]
    rw [hconditions, Condition.operands_append]
  all_goals
    simp [ofFilter, insert, Filter.ofClauses, Clause.formula?, Clause.keysOf, Clause.comparisonsOf,
      Clause.spatial?, Clause.textSearch?, Clause.sort?]

theorem add_ofFilter (clauses : List Clause) (clause : Clause) :
    (ofFilter (.ofClauses clauses)).add clause = ofFilter (.ofClauses (clauses ++ [clause])) := by
  cases clause with
  | formula f => rw [add, place, groupAt_ofFilter, ofFilter_formula]
  | _ =>
    simp [add, ofFilter, Filter.ofClauses, Filter.operands, List.filterMap_cons, Clause.formula?,
      Clause.keysOf, Clause.comparisonsOf, Clause.spatial?, Clause.textSearch?, Clause.sort?]

/-- **A filter is assembled from its contributions**, one after the other. -/
theorem foldl_add (clauses : List Clause) :
    clauses.foldl add empty = ofFilter (.ofClauses clauses) := by
  induction clauses using List.reverseRecOn with
  | nil => rfl
  | append_singleton clauses clause ih =>
    rw [List.foldl_append, ih, List.foldl_cons, List.foldl_nil, add_ofFilter]

end Assembly

end DocFilter
