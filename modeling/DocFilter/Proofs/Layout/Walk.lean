import DocFilter.Proofs.Expression.Rendition

/-!
# Walking the numbered nodes

The nodes of a tree can be kept in one table, and its operands in one list beside it, where a node
only knows how many operands it takes. A walk through the table writes the expression: it visits
parents before children and children from left to right, and takes the next operands from the list
where a test needs them. Such a walk may run out of operands, or leave some. For the table and the
operands of accepted filters it never does, since the operands of the tests stand in the list in the
order in which the walk meets the tests.

## Main definitions

* `Walk`: what a walk has done so far.
* `Walk.expression`: the walk from the root, or the mismatch at which it fails.
* `Condition.holdings`: the tests of a tree, by their numbers, with their own operands.

## Main results

* `Walk.node_eq_ok`, `Walk.nodes_eq_ok`: a walk through some conditions writes their texts and hands
  every test its own operands.
* `Walk.expression_eq_ok`: the walk from the root takes every operand.
-/

namespace DocFilter

/-- A walk wants or leaves other operands than there are. -/
structure Mismatch where
  consumed : Nat
  available : Nat
deriving DecidableEq, Repr

/-- What a walk has done so far. -/
structure Walk where
  /-- How many operands have been taken. -/
  consumed : Nat
  /-- The values that have been passed to variables, with their names. -/
  passed : List (String × Passing)
  /-- The operands that each test has taken, by the number of its node. -/
  handed : List (Nat × List Operand)
deriving DecidableEq, Repr

namespace Walk

/-! ### The walk -/

/-- The text of the next operand. -/
def next (operands : List Operand) (w : Walk) : Except Mismatch (String × Walk) :=
  match operands[w.consumed]? with
  | none => .error ⟨w.consumed + 1, operands.length⟩
  | some o =>
    match o.inline?, o.bind? with
    | some literal, _ => .ok (literal, { w with consumed := w.consumed + 1 })
    | none, some bind =>
      let name := variableName w.passed.length
      .ok ("$" ++ name, { w with
        consumed := w.consumed + 1
        passed := w.passed ++ [(name, ⟨bind, o.conversion⟩)] })
    | none, none => .ok ("null", { w with consumed := w.consumed + 1 })

/-- The texts of the next operands, as many as are asked for. -/
def take (operands : List Operand) : Nat → Walk → Except Mismatch (List String × Walk)
  | 0, w => .ok ([], w)
  | n + 1, w => do
    let (text, w) ← next operands w
    let (texts, w) ← take operands n w
    return (text :: texts, w)

/-- How many operands a test takes. Only lists of several operands are taken as a whole. -/
def demand (relation : Relation) (count : Nat) : Nat :=
  match relation with
  | .present => 0
  | .oneOf | .all => if 1 < count then count else 1
  | _ => 1

/-- The text of a test around the texts of its operands. -/
def testText (features : Features) (relation : Relation) (negated : Bool) (predicate : String)
    (operands : List String) : String :=
  if relation = .present then
    if negated then "(!exists(" ++ predicate ++ "))" else "exists(" ++ predicate ++ ")"
  else
    let body := Test.body features predicate relation operands
    if negated then "(!(" ++ body ++ "))" else body

/-- The visit of a test. -/
def test (features : Features) (operands : List Operand) (relation : Relation) (node : Node)
    (w : Walk) : Except Mismatch (String × Walk) := do
  let (texts, w') ← take operands (demand relation node.operandCount) w
  let taken := (operands.drop w.consumed).take (w'.consumed - w.consumed)
  return (testText features relation node.negated (node.predicate.getD "") texts,
    { w' with handed := w'.handed ++ [(node.id, taken)] })

/-- Whether the text of the only node with one of these numbers has parentheses around it. -/
def wrapsItself (nodes : List Node) : List Nat → Bool
  | [id] =>
    nodes[id]?.any fun child =>
      child.negated ||
        (child.kind.isGroup && child.downscope.isNone && 1 < child.children.length)
  | _ => false

/-- The text of a group around the joined texts of its children. -/
def groupText (nodes : List Node) (node : Node) (joined : String) : String :=
  match node.downscope with
  | some path =>
    let text := "exists(" ++ path.queryEach '@' ++ "?(" ++ joined ++ "))"
    if node.negated then "(!" ++ text ++ ")" else text
  | none =>
    if node.negated then
      if wrapsItself nodes node.children then "(!" ++ joined ++ ")" else "(!(" ++ joined ++ "))"
    else if node.children.length = 1 then joined
    else "(" ++ joined ++ ")"

/-- The visits of some nodes, one after the other. -/
def all (visit : Nat → Walk → Except Mismatch (String × Walk)) :
    List Nat → Walk → Except Mismatch (List String × Walk)
  | [], w => .ok ([], w)
  | id :: ids, w => do
    let (text, w) ← visit id w
    let (texts, w) ← all visit ids w
    return (text :: texts, w)

/-- The visit of a node. No tree is deeper than its table is long. -/
def node (features : Features) (nodes : List Node) (operands : List Operand) :
    Nat → Nat → Walk → Except Mismatch (String × Walk)
  | 0, _, w => .error ⟨w.consumed, operands.length⟩
  | bound + 1, id, w =>
    match nodes[id]? with
    | none => .error ⟨w.consumed, operands.length⟩
    | some n =>
      match n.kind with
      | .test relation => test features operands relation n w
      | .group junction => do
        let (texts, w) ← all (node features nodes operands bound) n.children w
        return (groupText nodes n (String.intercalate (Condition.separator junction) texts), w)

/-- The walk from the root: the text of the expression, unless the root has no children. -/
def expression (features : Features) (nodes : List Node) (operands : List Operand) :
    Except Mismatch (Option String × Walk) := do
  let children := (nodes[0]?.map Node.children).getD []
  let (texts, w) ← all (node features nodes operands nodes.length) children ⟨0, [], []⟩
  if w.consumed = operands.length then
    return (if children.isEmpty then none else some (String.intercalate " && " texts), w)
  else throw ⟨w.consumed, operands.length⟩

end Walk

/-! ### Places in a list -/

/-- The list `xs` stands in the list `l` from place `i` on. -/
def StandsAt {β : Type} (xs : List β) (i : Nat) (l : List β) : Prop :=
  xs <+: l.drop i

theorem standsAt_append {β : Type} {xs ys : List β} {i : Nat} {l : List β} :
    StandsAt (xs ++ ys) i l ↔ StandsAt xs i l ∧ StandsAt ys (i + xs.length) l := by
  unfold StandsAt
  rw [← List.drop_drop]
  constructor
  · rintro ⟨rest, h⟩
    rw [← h, List.append_assoc, List.drop_left]
    exact ⟨List.prefix_append _ _, List.prefix_append _ _⟩
  · rintro ⟨⟨rest, h⟩, h'⟩
    rw [← h, List.drop_left] at h'
    rw [← h]
    exact List.prefix_append_right_inj xs |>.2 h'

theorem StandsAt.getElem? {β : Type} {x : β} {xs : List β} {i : Nat} {l : List β}
    (h : StandsAt (x :: xs) i l) : l[i]? = some x := by
  obtain ⟨rest, hrest⟩ := h
  rw [← Nat.add_zero i, ← List.getElem?_drop, ← hrest]
  rfl

theorem StandsAt.tail {β : Type} {x : β} {xs : List β} {i : Nat} {l : List β}
    (h : StandsAt (x :: xs) i l) : StandsAt xs (i + 1) l :=
  (standsAt_append.1 (show StandsAt ([x] ++ xs) i l from h)).2

theorem StandsAt.take_drop {β : Type} {xs : List β} {i : Nat} {l : List β} (h : StandsAt xs i l) :
    (l.drop i).take xs.length = xs := by
  obtain ⟨rest, hrest⟩ := h
  rw [← hrest, List.take_left]

/-! ### Operands -/

/-- Values with the names of the variables from number `n` on. -/
def named (n : Nat) (ps : List Passing) : List (String × Passing) :=
  (ps.zipIdx n).map fun (p, i) => (variableName i, p)

theorem named_cons (n : Nat) (p : Passing) (ps : List Passing) :
    named n (p :: ps) = (variableName n, p) :: named (n + 1) ps := rfl

theorem length_named (n : Nat) (ps : List Passing) : (named n ps).length = ps.length := by
  rw [named, List.length_map, List.length_zipIdx]

theorem named_append (n : Nat) (ps qs : List Passing) :
    named n (ps ++ qs) = named n ps ++ named (n + ps.length) qs := by
  rw [named, List.zipIdx_append, List.map_append, named, named]

namespace Walk

variable {operands : List Operand} {w : Walk}

/-- The walk after some operands. -/
def after (w : Walk) (os : List Operand) : Walk :=
  ⟨w.consumed + os.length,
    w.passed ++ named w.passed.length (os.flatMap Operand.passings), w.handed⟩

theorem length_passed_after (w : Walk) (os : List Operand) :
    (w.after os).passed.length = w.passed.length + (os.flatMap Operand.passings).length := by
  rw [after, List.length_append, length_named]

theorem after_append (w : Walk) (os os' : List Operand) :
    (w.after os).after os' = w.after (os ++ os') := by
  have hpassed := length_passed_after w os
  simp only [after] at hpassed ⊢
  rw [hpassed, List.length_append, List.flatMap_append, named_append, List.append_assoc,
    Nat.add_assoc]

theorem next_eq_ok {o : Operand} (h : operands[w.consumed]? = some o) :
    next operands w = .ok ((o.render w.passed.length).1, w.after [o]) := by
  rw [next, h]
  cases hinline : o.inline? <;> cases hbind : o.bind? <;>
    simp [Operand.render, Operand.passings, after, named, hinline, hbind]

/-- **The next operands are taken in order**, each under the first free variable. -/
theorem take_eq_ok : {os : List Operand} → {w : Walk} → StandsAt os w.consumed operands →
    take operands os.length w = .ok ((Operand.renderAll w.passed.length os).1, w.after os)
  | [], w, _ => by simp [take, Operand.renderAll, after, named]
  | o :: os, w, h => by
      have hnext := next_eq_ok h.getElem?
      have hrest : StandsAt os (w.after [o]).consumed operands := h.tail
      have htake := take_eq_ok hrest
      rw [length_passed_after, List.flatMap_singleton, ← Operand.render_snd w.passed.length o,
        after_append] at htake
      rw [List.length_cons, take, hnext, Operand.renderAll]
      exact bind_eq_ok.2 ⟨_, rfl, bind_eq_ok.2 ⟨_, htake, rfl⟩⟩

/-! ### Tests -/

theorem demand_of_sized {t : Test} (h : t.Sized) :
    demand t.relation t.operands.length = t.operands.length := by
  unfold Test.Sized at h
  unfold demand
  cases hrelation : t.relation with
  | present => simpa [hrelation, eq_comm] using h
  | oneOf =>
    have hpos : 0 < t.operands.length := List.length_pos_iff.2 (by simpa [hrelation] using h)
    dsimp only
    split <;> omega
  | all =>
    have hpos : 0 < t.operands.length := List.length_pos_iff.2 (by simpa [hrelation] using h)
    dsimp only
    split <;> omega
  | _ => simpa [hrelation, eq_comm] using h

/-- The visit of a test hands it its own operands. -/
theorem test_eq_ok (features : Features) (path : Path) {t : Test} (ht : t.Sized) {n : Node}
    (hnegated : n.negated = t.negated) (hcount : n.operandCount = t.operands.length)
    (hpredicate : n.predicate = some (t.predicate path))
    (h : StandsAt t.operands w.consumed operands) :
    test features operands t.relation n w =
      .ok ((t.render features w.passed.length path).1,
        { w.after t.operands with handed := w.handed ++ [(n.id, t.operands)] }) := by
  have htake := take_eq_ok h
  have htaken : (operands.drop w.consumed).take ((w.after t.operands).consumed - w.consumed) =
      t.operands := by
    rw [after, Nat.add_sub_cancel_left]
    exact h.take_drop
  rw [test, hcount, demand_of_sized ht, htake, hnegated, hpredicate]
  refine bind_eq_ok.2 ⟨_, rfl, ?_⟩
  dsimp only
  rw [htaken]
  rfl

end Walk

/-! ### Tables -/

namespace Condition

mutual

/-- The tests of a condition that has the number `id`, by their numbers, with their own operands. -/
def holdingsAt (id : Nat) : Condition → List (Nat × List Operand)
  | leaf _ test => [(id, test.operands)]
  | group _ _ children => holdings (id + 1) children
  | within _ children => holdings (id + 1) children

/-- The tests of conditions in a row, of which the first has the number `id`. -/
def holdings (id : Nat) : List Condition → List (Nat × List Operand)
  | [] => []
  | c :: cs => c.holdingsAt id ++ holdings (id + c.size) cs

end

mutual

theorem length_nodesAt (parent id : Nat) :
    (c : Condition) → (c.nodesAt parent id).length = c.size
  | leaf path t => by rw [nodesAt, size]; rfl
  | group j negated children => by
      rw [nodesAt, size, List.length_cons, length_nodesOfAll, Nat.add_comm]
  | within path children => by
      rw [nodesAt, size, List.length_cons, length_nodesOfAll, Nat.add_comm]

theorem length_nodesOfAll (parent id : Nat) :
    (cs : List Condition) → (nodesOfAll parent id cs).length = sizeOfAll cs
  | [] => by rw [nodesOfAll, sizeOfAll]; rfl
  | c :: cs => by
      rw [nodesOfAll, sizeOfAll, List.length_append, length_nodesAt, length_nodesOfAll]

end

theorem length_ids (id : Nat) (cs : List Condition) : (ids id cs).length = cs.length := by
  induction cs generalizing id with
  | nil => rfl
  | cons c cs ih => rw [ids, List.length_cons, List.length_cons, ih]

/-- What the table says about the parentheses of a single child. -/
theorem wrapsItself_ids {nodes : List Node} {parent id : Nat} {cs : List Condition}
    (h : StandsAt (nodesOfAll parent id cs) id nodes) :
    Walk.wrapsItself nodes (ids id cs) = wrapsItself cs := by
  match cs with
  | [] => rfl
  | c :: c' :: cs => cases c <;> simp [ids, Walk.wrapsItself, wrapsItself]
  | [c] =>
    rw [nodesOfAll, nodesOfAll, List.append_nil] at h
    rw [ids, ids, Walk.wrapsItself]
    cases c with
    | leaf path t =>
      rw [nodesAt] at h
      rw [h.getElem?]
      simp [wrapsItself, NodeKind.isGroup]
    | group j negated children =>
      rw [nodesAt] at h
      rw [h.getElem?]
      simp [wrapsItself, NodeKind.isGroup, length_ids]
    | within path children =>
      rw [nodesAt] at h
      rw [h.getElem?]
      simp [wrapsItself]

end Condition

/-! ### Conditions -/

namespace Walk

variable {operands : List Operand} {nodes : List Node}

/-- The walk after conditions in a row, of which the first has the number `id`. -/
def through (w : Walk) (id : Nat) (cs : List Condition) : Walk :=
  { w.after (Condition.operands cs) with handed := w.handed ++ Condition.holdings id cs }

theorem through_cons (w : Walk) (id : Nat) (c : Condition) (cs : List Condition) :
    (w.through id [c]).through (id + c.size) cs = w.through id (c :: cs) := by
  have hafter := after_append w (Condition.operands [c]) (Condition.operands cs)
  simp only [after, mk.injEq] at hafter
  simp only [through, after, mk.injEq]
  refine ⟨?_, ?_, ?_⟩
  · rw [Condition.operands_cons c cs]
    exact hafter.1
  · rw [Condition.operands_cons c cs]
    exact hafter.2.1
  · simp only [Condition.holdings, List.append_nil, List.append_assoc]

theorem through_group (w : Walk) (id : Nat) (j : Junction) (negated : Bool)
    (children : List Condition) :
    w.through id [.group j negated children] = w.through (id + 1) children := by
  rw [through, through, Condition.operands_group]
  simp [Condition.holdings, Condition.holdingsAt]

theorem through_within (w : Walk) (id : Nat) (path : Path) (children : List Condition) :
    w.through id [.within path children] = w.through (id + 1) children := by
  rw [through, through, Condition.operands_within]
  simp [Condition.holdings, Condition.holdingsAt]

/-- The text of a group from the table. -/
theorem groupText_group {parent id : Nat} {j : Junction} {negated : Bool}
    {children : List Condition} {up : Option Nat}
    (h : StandsAt (Condition.nodesOfAll parent id children) id nodes) (joined : String) :
    groupText nodes
        ⟨parent, .group j, negated, 0, none, none, Condition.ids id children, up⟩ joined =
      Condition.wrap negated children joined := by
  simp only [groupText, Condition.wrap, Condition.wrapsItself_ids h, Condition.length_ids]

theorem length_passed_through (w : Walk) (id : Nat) (c : Condition) :
    (w.through id [c]).passed.length = w.passed.length + c.passings.length :=
  length_passed_after w (Condition.operands [c])

mutual

/-- **A walk through a condition writes its text and hands every test its own operands**, if the
nodes of the condition stand in the table at its number, and its operands are the next ones. -/
theorem node_eq_ok (features : Features) :
    (c : Condition) → c.WellFormed → ∀ (parent id bound : Nat) (w : Walk), c.size ≤ bound →
      StandsAt (c.nodesAt parent id) id nodes →
      StandsAt (Condition.operands [c]) w.consumed operands →
      node features nodes operands bound id w =
        .ok ((c.render features w.passed.length).1, w.through id [c])
  | .leaf path t, hc, parent, id, bound + 1, w, _, hnodes, hoperands => by
      rw [Condition.nodesAt] at hnodes
      have hown : StandsAt t.operands w.consumed operands := by
        simpa [Condition.operands, Condition.leavesOfAll, Condition.leaves] using hoperands
      rw [node, hnodes.getElem?, Condition.render]
      dsimp only
      rw [test_eq_ok features path hc.2 rfl rfl rfl hown]
      simp [through, Condition.operands, Condition.leavesOfAll, Condition.leaves,
        Condition.holdings, Condition.holdingsAt]
  | .group j negated children, hc, parent, id, bound + 1, w, hbound, hnodes, hoperands => by
      rw [Condition.size] at hbound
      rw [Condition.nodesAt] at hnodes
      rw [Condition.operands_group] at hoperands
      have hchildren := nodes_eq_ok features children hc.2 id (id + 1) bound w (by omega)
        hnodes.tail hoperands
      rw [node, hnodes.getElem?, Condition.render]
      refine bind_eq_ok.2 ⟨_, hchildren, ?_⟩
      dsimp only
      rw [groupText_group hnodes.tail, through_group]
      rfl
  | .within path children, hc, parent, id, bound + 1, w, hbound, hnodes, hoperands => by
      rw [Condition.size] at hbound
      rw [Condition.nodesAt] at hnodes
      rw [Condition.operands_within] at hoperands
      have hchildren := nodes_eq_ok features children hc.2.2 id (id + 1) bound w (by omega)
        hnodes.tail hoperands
      rw [node, hnodes.getElem?, Condition.render]
      refine bind_eq_ok.2 ⟨_, hchildren, ?_⟩
      dsimp only
      rw [through_within]
      rfl
  | c, _, _, _, 0, _, hbound, _, _ => by
      cases c <;> simp [Condition.size] at hbound

theorem nodes_eq_ok (features : Features) :
    (cs : List Condition) → Condition.AllWellFormed cs →
      ∀ (parent id bound : Nat) (w : Walk), Condition.sizeOfAll cs ≤ bound →
      StandsAt (Condition.nodesOfAll parent id cs) id nodes →
      StandsAt (Condition.operands cs) w.consumed operands →
      all (node features nodes operands bound) (Condition.ids id cs) w =
        .ok ((Condition.renderAll features w.passed.length cs).1, w.through id cs)
  | [], _, _, id, _, w, _, _, _ => by
      simp [all, Condition.ids, Condition.renderAll, through, after, Condition.operands,
        Condition.leavesOfAll, Condition.holdings, named]
  | c :: cs, hcs, parent, id, bound, w, hbound, hnodes, hoperands => by
      rw [Condition.sizeOfAll] at hbound
      rw [Condition.nodesOfAll, standsAt_append, Condition.length_nodesAt] at hnodes
      rw [Condition.operands_cons, standsAt_append] at hoperands
      have hfirst := node_eq_ok features c hcs.1 parent id bound w (by omega) hnodes.1 hoperands.1
      have hrest := nodes_eq_ok features cs hcs.2 parent (id + c.size) bound (w.through id [c])
        (by omega) hnodes.2 hoperands.2
      rw [length_passed_through, ← Condition.render_snd features w.passed.length c,
        through_cons] at hrest
      rw [Condition.ids, all, hfirst, Condition.renderAll]
      exact bind_eq_ok.2 ⟨_, rfl, bind_eq_ok.2 ⟨_, hrest, rfl⟩⟩

end

/-- **The walk from the root takes every operand.** It writes the expression of the conditions,
passes the values in order under the names of their variables, and hands every test its own
operands. -/
theorem expression_eq_ok (features : Features) {cs : List Condition}
    (hcs : Condition.AllWellFormed cs) :
    expression features (Condition.nodes cs) (Condition.operands cs) =
      .ok ((Expression.ofConditions? features cs).map Expression.text,
        ⟨(Condition.operands cs).length, named 0 ((Condition.operands cs).flatMap Operand.passings),
          Condition.holdings 1 cs⟩) := by
  have hbound : Condition.sizeOfAll cs ≤ (Condition.nodes cs).length := by
    rw [Condition.nodes, List.length_cons, Condition.length_nodesOfAll]
    omega
  have hnodes : StandsAt (Condition.nodesOfAll 0 1 cs) 1 (Condition.nodes cs) := List.prefix_refl _
  have hoperands : StandsAt (Condition.operands cs) 0 (Condition.operands cs) := List.prefix_refl _
  have hall := nodes_eq_ok features cs hcs 0 1 _ ⟨0, [], []⟩ hbound hnodes hoperands
  have hwalk : through ⟨0, [], []⟩ 1 cs =
      ⟨(Condition.operands cs).length, named 0 ((Condition.operands cs).flatMap Operand.passings),
        Condition.holdings 1 cs⟩ := by
    simp [through, after]
  have htext : (if (Condition.ids 1 cs).isEmpty then none else
      some (String.intercalate " && " (Condition.renderAll features 0 cs).1)) =
      (Expression.ofConditions? features cs).map Expression.text := by
    cases cs <;> rfl
  rw [hwalk] at hall
  rw [expression]
  refine bind_eq_ok.2 ⟨_, hall, ?_⟩
  dsimp only
  rw [if_pos rfl]
  exact congrArg (fun text => Except.ok (text, _)) htext

end Walk

end DocFilter
