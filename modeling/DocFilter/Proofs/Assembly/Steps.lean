import DocFilter.Proofs.Assembly.Basic

/-!
# Building filters step by step

A builder adds one node at a time under a node that is there. The new node gets the next number and
becomes the last child of its parent; a test pushes its operands to the end of the list of operands.
Where a formula goes depends on what kind of node its parent is, and on nothing that comes later: a
group is added without children, and what stands in it is added afterwards, one after the other.

A builder remembers what each test has pushed. Building a formula has the same outcome as placing
its conditions at once, and the operands that were pushed for the tests are those of the tests of
the tree, in the order of their numbers.

## Main definitions

* `Frame`: a group that is opened before it is filled.
* `Builder`: an assembly with a record of what each test has pushed.
* `Builder.addTest`, `Builder.addGroup`: one more node.
* `Builder.attach`, `Builder.build`: the nodes of the demands on a field, and of a formula.
* `Builder.ofJson`, `Builder.ofBytes`: the builder of a document.

## Main results

* `Node.graft_graft_fill`: a node may be opened first and filled afterwards.
* `Builder.attach_eq_insert`, `Builder.build_eq_insert`: building step by step places the conditions
  of a formula.
* `Builder.ofJson_eq_map`: the builder of a document has the table, the operands and the
  restrictions of its filter.
-/

namespace DocFilter

/-! ### Frames -/

/-- A group that is opened before it is filled. -/
inductive Frame where
  | group (g : Group)
  /-- A conjunction about the values at a path. -/
  | within (path : Path)

namespace Frame

/-- The condition that a frame becomes when it is filled. -/
def fill : Frame → List Condition → Condition
  | group g, cs => g.node cs
  | within path, cs => .within path cs

/-- The kind of group that a frame is for what stands in it. -/
def toGroup : Frame → Group
  | group g => g
  | within _ => .root

/-- The path whose values the conditions in a frame are about. -/
def downscope : Frame → Option Path
  | group _ => none
  | within path => some path

/-- The node of a frame. -/
def node (frame : Frame) (parent id : Nat) (children : List Nat) : Node :=
  ⟨id, .group frame.toGroup.junction, frame.toGroup.negated, 0, none, frame.downscope, children,
    some parent⟩

variable (frame : Frame)

theorem nodesAt_fill (parent id : Nat) (cs : List Condition) :
    (frame.fill cs).nodesAt parent id =
      frame.node parent id (Condition.ids (id + 1) cs) ::
        Condition.nodesOfAll id (id + 1) cs := by
  cases frame with
  | group g => rw [fill, Group.node, Condition.nodesAt]; rfl
  | within path => rw [fill, Condition.nodesAt]; rfl

theorem operands_fill (cs : List Condition) :
    Condition.operands [frame.fill cs] = Condition.operands cs := by
  cases frame with
  | group g => exact Condition.operands_group g.junction g.negated cs
  | within path => exact Condition.operands_within path cs

/-- A frame is no test, and those in it have the numbers behind its own. -/
theorem holdings_fill (id : Nat) (cs : List Condition) :
    Condition.holdings id [frame.fill cs] = Condition.holdings (id + 1) cs := by
  rw [Condition.holdings, Condition.holdings, List.append_nil]
  cases frame with
  | group g => rw [fill, Group.node, Condition.holdingsAt]
  | within path => rw [fill, Condition.holdingsAt]

end Frame

namespace Node

variable {nodes : List Node} {parent : Nat}

/-- **A node may be opened first and filled afterwards.** -/
theorem graft_graft_fill (h : Numbered 0 nodes) (frame : Frame) (cs : List Condition) :
    graft (graft nodes parent [frame.fill []]) nodes.length cs =
      graft nodes parent [frame.fill cs] := by
  have hfill (cs : List Condition) : Condition.nodesOfAll parent nodes.length [frame.fill cs] =
      frame.node parent nodes.length (Condition.ids (nodes.length + 1) cs) ::
        Condition.nodesOfAll nodes.length (nodes.length + 1) cs := by
    rw [Condition.nodesOfAll, frame.nodesAt_fill, Condition.nodesOfAll, List.append_nil]
  -- the nodes that are there do not change when the new one gets its children
  have hold (ids ids' : List Nat) :
      (nodes.map (adopt parent ids)).map (adopt nodes.length ids') =
        nodes.map (adopt parent ids) := by
    refine map_adopt_eq_self fun n hn => ?_
    obtain ⟨m, hm, rfl⟩ := List.mem_map.1 hn
    have hlt := (h.bounds hm).2
    rw [id_adopt]
    omega
  have hnew (ids : List Nat) :
      adopt nodes.length ids (frame.node parent nodes.length []) =
        frame.node parent nodes.length ids :=
    if_pos rfl
  have hlength : (graft nodes parent [frame.fill []]).length = nodes.length + 1 := by
    rw [graft, hfill, List.length_append, List.length_map]
    rfl
  rw [graft, hlength, graft, List.map_append, hold, hfill, graft, hfill, List.append_assoc]
  exact congrArg (_ ++ · :: _) (hnew _)

/-- An opened node gets the next number. -/
theorem groupAt_graft_fill (nodes : List Node) (parent : Nat) (frame : Frame) :
    groupAt (graft nodes parent [frame.fill []]) nodes.length = frame.toGroup := by
  have hle : (nodes.map (adopt parent (Condition.ids nodes.length [frame.fill []]))).length ≤
      nodes.length := by
    rw [List.length_map]
  rw [groupAt, graft, List.getElem?_append_right hle, List.length_map, Nat.sub_self,
    Condition.nodesOfAll, frame.nodesAt_fill]
  rfl

end Node

theorem Assembly.insert_fill (t : Assembly) (parent : Nat) (frame : Frame) (cs : List Condition)
    (modern : Bool) :
    (t.insert parent [frame.fill []] false).insert t.nodes.length cs modern =
      t.insert parent [frame.fill cs] modern := by
  ext1
  case nodes => exact Node.graft_graft_fill t.numbered frame cs
  case operands =>
    simp only [insert, Frame.operands_fill, List.append_assoc]
    rfl
  case requiresModern => simp only [insert, Bool.or_false]
  all_goals rfl

/-! ### Builders -/

theorem Condition.holdings_append (id : Nat) (cs ds : List Condition) :
    holdings id (cs ++ ds) = holdings id cs ++ holdings (id + sizeOfAll cs) ds := by
  induction cs generalizing id with
  | nil => rw [List.nil_append, holdings, List.nil_append, sizeOfAll, Nat.add_zero]
  | cons c cs ih =>
    rw [List.cons_append, holdings, ih, holdings, List.append_assoc, sizeOfAll, Nat.add_assoc]

/-- The table with one more node, which is the last child of the node with the number `parent`. -/
def Node.push (nodes : List Node) (parent : Nat) (n : Node) : List Node :=
  nodes.map (adopt parent [nodes.length]) ++ [n]

theorem Node.length_push (nodes : List Node) (parent : Nat) (n : Node) :
    (push nodes parent n).length = nodes.length + 1 := by
  rw [push, List.length_append, List.length_map, List.length_singleton]

theorem Node.push_ne_nil (nodes : List Node) (parent : Nat) (n : Node) :
    push nodes parent n ≠ [] :=
  List.append_ne_nil_of_right_ne_nil _ (List.cons_ne_nil n [])

theorem Frame.push_eq_graft (frame : Frame) (nodes : List Node) (parent : Nat) :
    Node.push nodes parent (frame.node parent nodes.length []) =
      Node.graft nodes parent [frame.fill []] := by
  rw [Node.graft, Condition.nodesOfAll, frame.nodesAt_fill]
  rfl

/-- An assembly that is built node by node. -/
structure Builder extends Assembly where
  /-- The tests that have been added, by their numbers, with the operands that each has pushed. -/
  pushed : List (Nat × List Operand)

namespace Builder

/-! ### Single nodes -/

/-- The builder with a test added under a node. Its operands are pushed. -/
def addTest (parent : Nat) (path : Path) (b : Builder) (t : Test) : Builder where
  toAssembly :=
    { b.toAssembly with
      nodes := Node.push b.nodes parent ⟨b.nodes.length, .test t.relation, t.negated,
        t.operands.length, some (t.predicate path), none, [], some parent⟩
      operands := b.operands ++ t.operands
      requiresModern := b.requiresModern || t.requiresModern
      nodes_ne_nil := Node.push_ne_nil b.nodes parent _
      numbered := b.numbered.graft parent [.leaf path t] }
  pushed := b.pushed ++ [(b.nodes.length, t.operands)]

/-- The builder with a group added under a node, which is not filled yet. -/
def addGroup (b : Builder) (parent : Nat) (frame : Frame) : Builder where
  toAssembly :=
    { b.toAssembly with
      nodes := Node.push b.nodes parent (frame.node parent b.nodes.length [])
      nodes_ne_nil := Node.push_ne_nil b.nodes parent _
      numbered := frame.push_eq_graft b.nodes parent ▸ b.numbered.graft parent [frame.fill []] }
  pushed := b.pushed

/-! ### Formulas -/

/-- The builder with a demand on a field added under a node. A negated conjunction of several tests
is a disjunction of the opposite tests, and joins a disjunction that is not negated. -/
def addDemand (parent : Nat) (path : Path) (b : Builder) : Demand → Builder
  | .test t => b.addTest parent path t
  | .negation [] => b
  | .negation [t] => b.addTest parent path t.negate
  | .negation tests =>
    if (Node.groupAt b.nodes parent).absorbs .or then
      (tests.map Test.negate).foldl (addTest parent path) b
    else
      (tests.map Test.negate).foldl (addTest b.nodes.length path)
        (b.addGroup parent (.group ⟨.or, false⟩))

/-- The builder with the demands on a field added under a node. Several of them open a conjunction
where they do not stand in one. -/
def attach (b : Builder) (parent : Nat) (path : Path) (demands : List Demand) : Builder :=
  if 1 < demands.length && !(Node.groupAt b.nodes parent).absorbs .and then
    demands.foldl (addDemand b.nodes.length path) (b.addGroup parent (.group .root))
  else demands.foldl (addDemand parent path) b

mutual

/-- The builder with a formula added under a node. -/
def build (parent : Nat) (b : Builder) : Formula → Builder
  | .field path demands => b.attach parent path demands
  | .within path body => buildAll b.nodes.length (b.addGroup parent (.within path)) body
  | .negation body => buildAll b.nodes.length (b.addGroup parent (.group ⟨.and, true⟩)) body
  | .junction c items =>
    if (Node.groupAt b.nodes parent).absorbs c then buildItems parent b items
    else buildItems b.nodes.length (b.addGroup parent (.group (.ofConnective c))) items

/-- The builder with the formulas of a conjunction added under a node, one after the other. -/
def buildAll (parent : Nat) (b : Builder) : List Formula → Builder
  | [] => b
  | f :: fs => buildAll parent (build parent b f) fs

/-- The builder with the filters of a connective added under its node, one after the other. In a
disjunction, a filter of several members opens a conjunction. -/
def buildItems (parent : Nat) (b : Builder) : List (List Formula) → Builder
  | [] => b
  | fs :: items =>
    buildItems parent
      (if (Node.groupAt b.nodes parent).absorbs .and || fs.length = 1 then buildAll parent b fs
        else buildAll b.nodes.length (b.addGroup parent (.group .root)) fs)
      items

end

/-! ### Steps -/

/-- The builder with some conditions placed under a node at once. -/
def insert (b : Builder) (parent : Nat) (cs : List Condition) (modern : Bool) : Builder where
  toAssembly := b.toAssembly.insert parent cs modern
  pushed := b.pushed ++ Condition.holdings b.nodes.length cs

variable {b : Builder} {parent : Nat}

theorem ext {b b' : Builder} (hassembly : b.toAssembly = b'.toAssembly)
    (hpushed : b.pushed = b'.pushed) : b = b' := by
  obtain ⟨assembly, pushed⟩ := b
  obtain ⟨assembly', pushed'⟩ := b'
  obtain rfl : assembly = assembly' := hassembly
  obtain rfl : pushed = pushed' := hpushed
  rfl

theorem lt_length_insert (hparent : parent < b.nodes.length) (cs : List Condition)
    (modern : Bool) : parent < (b.insert parent cs modern).nodes.length :=
  Assembly.lt_length_insert hparent cs modern

theorem groupAt_insert (hparent : parent < b.nodes.length) (cs : List Condition) (modern : Bool) :
    Node.groupAt (b.insert parent cs modern).nodes parent = Node.groupAt b.nodes parent :=
  Node.groupAt_graft hparent cs

theorem insert_nil (b : Builder) (parent : Nat) : b.insert parent [] false = b :=
  ext (Assembly.placeAll_nil b.toAssembly parent) (List.append_nil b.pushed)

/-- Conditions may be placed one after the other. -/
theorem insert_insert (hparent : parent < b.nodes.length) (cs ds : List Condition)
    (modern modern' : Bool) :
    (b.insert parent cs modern).insert parent ds modern' =
      b.insert parent (cs ++ ds) (modern || modern') := by
  refine ext (Assembly.insert_insert hparent cs ds modern modern') ?_
  have hlength : (b.insert parent cs modern).nodes.length =
      b.nodes.length + Condition.sizeOfAll cs := Assembly.length_insert _ _ _ _
  simp only [insert] at hlength ⊢
  rw [hlength, Condition.holdings_append, List.append_assoc]

theorem addTest_eq_insert (b : Builder) (parent : Nat) (path : Path) (t : Test) :
    b.addTest parent path t = b.insert parent [.leaf path t] t.requiresModern := by
  refine ext ?_ ?_
  · refine Assembly.ext rfl ?_ rfl rfl rfl rfl rfl rfl
    exact congrArg (b.operands ++ ·) (Condition.operands_leaf path t).symm
  · exact congrArg (b.pushed ++ ·) rfl

theorem addGroup_eq_insert (b : Builder) (parent : Nat) (frame : Frame) :
    b.addGroup parent frame = b.insert parent [frame.fill []] false := by
  refine ext (Assembly.ext ?_ ?_ rfl rfl rfl rfl rfl ?_) ?_
  · exact frame.push_eq_graft b.nodes parent
  · exact ((congrArg (b.operands ++ ·) (frame.operands_fill [])).trans
      (List.append_nil b.operands)).symm
  · exact (Bool.or_false b.requiresModern).symm
  · exact ((congrArg (b.pushed ++ ·) (frame.holdings_fill b.nodes.length [])).trans
      (List.append_nil b.pushed)).symm

theorem length_addGroup (b : Builder) (parent : Nat) (frame : Frame) :
    (b.addGroup parent frame).nodes.length = b.nodes.length + 1 :=
  Node.length_push b.nodes parent _

theorem lt_length_addGroup (b : Builder) (parent : Nat) (frame : Frame) :
    b.nodes.length < (b.addGroup parent frame).nodes.length := by
  rw [length_addGroup]
  exact Nat.lt_succ_self _

theorem groupAt_addGroup (b : Builder) (parent : Nat) (frame : Frame) :
    Node.groupAt (b.addGroup parent frame).nodes b.nodes.length = frame.toGroup := by
  rw [addGroup_eq_insert]
  exact Node.groupAt_graft_fill b.nodes parent frame

/-- A group is placed by adding its node first and its children afterwards. -/
theorem insert_addGroup (b : Builder) (parent : Nat) (frame : Frame) (cs : List Condition)
    (modern : Bool) :
    (b.addGroup parent frame).insert b.nodes.length cs modern =
      b.insert parent [frame.fill cs] modern := by
  refine ext ?_ ?_
  · rw [addGroup_eq_insert]
    exact Assembly.insert_fill b.toAssembly parent frame cs modern
  · rw [insert, length_addGroup, insert, frame.holdings_fill]
    rfl

/-- Tests that are added one after the other are placed in a row. -/
theorem foldl_addTest (hparent : parent < b.nodes.length) (path : Path) (ts : List Test) :
    ts.foldl (addTest parent path) b =
      b.insert parent (ts.map (Condition.leaf path)) (ts.any Test.requiresModern) := by
  induction ts generalizing b with
  | nil => exact (insert_nil b parent).symm
  | cons t ts ih =>
    have hlt : parent < (b.addTest parent path t).nodes.length := by
      rw [addTest_eq_insert]
      exact lt_length_insert hparent _ _
    rw [List.foldl_cons, ih hlt, addTest_eq_insert, insert_insert hparent, List.map_cons,
      List.any_cons, List.singleton_append]

/-- The opposite tests of a negated conjunction are placed in a row. -/
theorem foldl_addTest_negate (hparent : parent < b.nodes.length) (path : Path) (ts : List Test) :
    (ts.map Test.negate).foldl (addTest parent path) b =
      b.insert parent (ts.map fun t => .leaf path t.negate) (ts.any Test.requiresModern) := by
  rw [foldl_addTest hparent, List.map_map, List.any_map]
  rfl

/-- **A demand on a field is placed step by step.** -/
theorem addDemand_eq_insert (hparent : parent < b.nodes.length) (path : Path) (d : Demand) :
    b.addDemand parent path d =
      b.insert parent (d.lower path (Node.groupAt b.nodes parent))
        (d.tests.any Test.requiresModern) := by
  cases d with
  | test t =>
    rw [addDemand, addTest_eq_insert, Demand.lower, Demand.tests, List.any_cons, List.any_nil,
      Bool.or_false]
  | negation ts =>
    rcases ts with _ | ⟨t, _ | ⟨t', ts⟩⟩
    · exact (insert_nil b parent).symm
    · exact foldl_addTest_negate hparent path [t]
    · rw [addDemand, Demand.lower, Demand.tests]
      · split_ifs
        · exact foldl_addTest_negate hparent path _
        · rw [foldl_addTest_negate (lt_length_addGroup b parent _), insert_addGroup]
          rfl
      all_goals simp

/-- Demands that are added one after the other are placed in a row. -/
theorem foldl_addDemand (hparent : parent < b.nodes.length) (path : Path) (ds : List Demand) :
    ds.foldl (addDemand parent path) b =
      b.insert parent (ds.flatMap (Demand.lower path (Node.groupAt b.nodes parent)))
        ((ds.flatMap Demand.tests).any Test.requiresModern) := by
  induction ds generalizing b with
  | nil => exact (insert_nil b parent).symm
  | cons d ds ih =>
    have hstep := addDemand_eq_insert hparent path d
    have hlt : parent < (b.addDemand parent path d).nodes.length := by
      rw [hstep]
      exact lt_length_insert hparent _ _
    have hgroup : Node.groupAt (b.addDemand parent path d).nodes parent =
        Node.groupAt b.nodes parent := by
      rw [hstep]
      exact groupAt_insert hparent _ _
    rw [List.foldl_cons, ih hlt, hgroup, hstep, insert_insert hparent, List.flatMap_cons,
      List.flatMap_cons, List.any_append]

/-- **The demands on a field are placed step by step.** -/
theorem attach_eq_insert (hparent : parent < b.nodes.length) (path : Path) (ds : List Demand) :
    b.attach parent path ds =
      b.insert parent (Demand.lowerAll path (Node.groupAt b.nodes parent) ds)
        ((ds.flatMap Demand.tests).any Test.requiresModern) := by
  unfold attach Demand.lowerAll
  split_ifs
  · rw [foldl_addDemand (lt_length_addGroup b parent _), groupAt_addGroup, insert_addGroup]
    rfl
  · rw [foldl_addDemand hparent]

mutual

/-- **A formula is placed step by step.** The builder looks at the node under which it builds, and
opens every group before it knows what stands in it. -/
theorem build_eq_insert : (f : Formula) → ∀ {b : Builder} {parent : Nat},
    parent < b.nodes.length →
      b.build parent f =
        b.insert parent (f.lower (Node.groupAt b.nodes parent)) f.requiresModern
  | .field path demands, b, parent, hparent => by
      rw [build, attach_eq_insert hparent, Formula.lower, Formula.requiresModern, Formula.tests]
  | .within path body, b, parent, _ => by
      rw [build, buildAll_eq_insert body (lt_length_addGroup b parent _), groupAt_addGroup,
        insert_addGroup, Formula.lower, Formula.any_requiresModern, Formula.requiresModern,
        Formula.tests]
      rfl
  | .negation body, b, parent, _ => by
      rw [build, buildAll_eq_insert body (lt_length_addGroup b parent _), groupAt_addGroup,
        insert_addGroup, Formula.lower, Formula.any_requiresModern, Formula.requiresModern,
        Formula.tests]
      rfl
  | .junction c items, b, parent, hparent => by
      have hmodern : (Formula.junction c items).requiresModern =
          items.flatten.any Formula.requiresModern := by
        rw [Formula.any_requiresModern, Formula.requiresModern, Formula.tests,
          Formula.testsOfItems_eq]
      rw [build, Formula.lower, hmodern]
      split_ifs
      · rw [buildItems_eq_insert items hparent]
      · rw [buildItems_eq_insert items (lt_length_addGroup b parent _), groupAt_addGroup,
          insert_addGroup]
        rfl

theorem buildAll_eq_insert : (fs : List Formula) → ∀ {b : Builder} {parent : Nat},
    parent < b.nodes.length →
      b.buildAll parent fs =
        b.insert parent (Formula.lowerAll (Node.groupAt b.nodes parent) fs)
          (fs.any Formula.requiresModern)
  | [], b, parent, _ => (insert_nil b parent).symm
  | f :: fs, b, parent, hparent => by
      have hstep := build_eq_insert f hparent
      have hlt : parent < (b.build parent f).nodes.length := by
        rw [hstep]
        exact lt_length_insert hparent _ _
      have hgroup : Node.groupAt (b.build parent f).nodes parent = Node.groupAt b.nodes parent := by
        rw [hstep]
        exact groupAt_insert hparent _ _
      rw [buildAll, buildAll_eq_insert fs hlt, hgroup, hstep, insert_insert hparent,
        Formula.lowerAll, List.any_cons]

theorem buildItems_eq_insert : (items : List (List Formula)) → ∀ {b : Builder} {parent : Nat},
    parent < b.nodes.length →
      b.buildItems parent items =
        b.insert parent (Formula.lowerItems (Node.groupAt b.nodes parent) items)
          (items.flatten.any Formula.requiresModern)
  | [], b, parent, _ => (insert_nil b parent).symm
  | fs :: items, b, parent, hparent => by
      have hstep : (if (Node.groupAt b.nodes parent).absorbs .and || fs.length = 1 then
            b.buildAll parent fs
          else (b.addGroup parent (.group .root)).buildAll b.nodes.length fs) =
          b.insert parent
            (if (Node.groupAt b.nodes parent).absorbs .and || fs.length = 1 then
                Formula.lowerAll (Node.groupAt b.nodes parent) fs
              else [.group .and false (Formula.lowerAll .root fs)])
            (fs.any Formula.requiresModern) := by
        split_ifs
        · exact buildAll_eq_insert fs hparent
        · rw [buildAll_eq_insert fs (lt_length_addGroup b parent _), groupAt_addGroup,
            insert_addGroup]
          rfl
      rw [buildItems, hstep, buildItems_eq_insert items (lt_length_insert hparent _ _),
        groupAt_insert hparent, insert_insert hparent, Formula.lowerItems, List.flatten_cons,
        List.any_append]

end

/-! ### Documents -/

/-- The builder of a whole filter. -/
def ofFilter (f : Filter) : Builder :=
  ⟨.ofFilter f, Condition.holdings 1 f.conditions⟩

/-- The builder that has nothing but the root. -/
def empty : Builder :=
  ⟨.empty, []⟩

/-- The builder with what a member of a document contributes. -/
def add (b : Builder) : Clause → Builder
  | .formula f => b.build 0 f
  | clause => ⟨b.toAssembly.add clause, b.pushed⟩

/-- The builder of a document, whose members are added in turn. -/
def ofJson (document : Json) : Except Error Builder := do
  let members ← document.expectMembers "filter"
  let queries := Filter.countKey "$query" members
  if 1 < queries then throw (.multipleClauses "$query")
  return (← Clause.readDocument (queries = 1) [] members).foldl add empty

/-- The builder of a text encoded in UTF-8. -/
def ofBytes (bytes : ByteArray) : Except Error Builder := do
  let some document := Json.ofBytes? bytes | throw .invalidJson
  ofJson document

theorem length_nodes_ofFilter (f : Filter) :
    (ofFilter f).nodes.length = 1 + Condition.sizeOfAll f.conditions := by
  rw [Nat.add_comm, ← Condition.length_nodesOfAll 0 1]
  rfl

theorem add_ofFilter (clauses : List Clause) (clause : Clause) :
    (ofFilter (.ofClauses clauses)).add clause = ofFilter (.ofClauses (clauses ++ [clause])) := by
  have hassembly := Assembly.add_ofFilter clauses clause
  cases clause with
  | formula f =>
    have hroot : 0 < (ofFilter (.ofClauses clauses)).nodes.length := by
      rw [length_nodes_ofFilter]
      omega
    rw [add, build_eq_insert f hroot]
    refine ext hassembly ?_
    have hlength := length_nodes_ofFilter (.ofClauses clauses)
    simp only [insert, ofFilter] at hlength ⊢
    rw [hlength, Filter.conditions_concat_formula, Condition.holdings_append]
    rfl
  | _ =>
    refine ext hassembly ?_
    simp [add, ofFilter, Filter.ofClauses, List.filterMap_cons, Clause.formula?]

theorem foldl_add (clauses : List Clause) :
    clauses.foldl add empty = ofFilter (.ofClauses clauses) := by
  induction clauses using List.reverseRecOn with
  | nil => rfl
  | append_singleton clauses clause ih =>
    rw [List.foldl_append, ih, List.foldl_cons, List.foldl_nil, add_ofFilter]

/-- **The builder of a document is that of its filter**, with the same error if there is none. -/
theorem ofJson_eq_map (document : Json) :
    ofJson document = (Filter.ofJson document).map ofFilter := by
  unfold ofJson Filter.ofJson
  simp only [foldl_add]
  cases document.expectMembers "filter" with
  | error e => rfl
  | ok members =>
    dsimp only [bind, Except.bind]
    split_ifs
    · rfl
    · cases Clause.readDocument _ [] members <;> rfl

theorem ofBytes_eq_map (bytes : ByteArray) :
    ofBytes bytes = (Filter.ofBytes bytes).map ofFilter := by
  unfold ofBytes Filter.ofBytes
  cases Json.ofBytes? bytes with
  | none => rfl
  | some document => exact ofJson_eq_map document

end Builder

end DocFilter
