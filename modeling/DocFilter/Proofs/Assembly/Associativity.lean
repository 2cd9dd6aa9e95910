import DocFilter.Proofs.Assembly.Truth

/-!
# Connectives are associative

Where filters are nested by connectives of one kind, the nesting leaves no trace in the table. A
conjunction that is placed under a conjunction adds the members of its filters one by one, and a
disjunction inside a disjunction adds its own filters. Both give the same nodes with the same
numbers, the same operands, and the same error if there is one. A disjunction inside a negated
disjunction may keep a node of its own, but does not change what the table says.

## Main results

* `Formula.lowerItems_of_absorbs_and`: a conjunction placed in a conjunction is dissolved.
* `Formula.lower_or_nested`: a disjunction in a disjunction is dissolved.
* `Formula.alike_lowerItems`: filters have the same tests and the same truth value in a disjunction
  of either polarity.
* `Assembly.load_associative`: connectives are associative.
-/

namespace DocFilter

/-! ### Reading -/

/-- The filters `xs`, the disjunction of the filters `ys`, and the filters `zs`. -/
def Json.nested (xs ys zs : List Json) : List Json :=
  xs ++ [.object [("$or", .array ys)]] ++ zs

namespace Formula

theorem readMembers_append (members members' : List (String × Json)) :
    readMembers (members ++ members') =
      (do return (← readMembers members) ++ (← readMembers members')) := by
  induction members with
  | nil =>
    rw [List.nil_append, readMembers]
    cases readMembers members' <;> rfl
  | cons member members ih =>
    obtain ⟨key, value⟩ := member
    rw [List.cons_append, readMembers, ih, readMembers]
    cases read .nested key value with
    | error e => rfl
    | ok f =>
      cases readMembers members with
      | error e => rfl
      | ok fs => cases readMembers members' <;> rfl

theorem readItems_object_cons (key : String) {members : List (String × Json)} (h : members ≠ [])
    (items : List Json) :
    readItems key (.object members :: items) =
      (do return (← readMembers members) :: (← readItems key items)) := by
  obtain ⟨member, members, rfl⟩ := List.exists_cons_of_ne_nil h
  rw [readItems]
  rfl

theorem readItems_append (key : String) (items items' : List Json) :
    readItems key (items ++ items') =
      (do return (← readItems key items) ++ (← readItems key items')) := by
  induction items with
  | nil =>
    rw [List.nil_append, readItems]
    cases readItems key items' <;> rfl
  | cons item items ih =>
    rw [List.cons_append]
    cases item with
    | object members =>
      by_cases hempty : members = []
      · subst hempty
        rw [readItems, readItems]
        rfl
      · rw [readItems_object_cons key hempty, readItems_object_cons key hempty, ih]
        cases readMembers members with
        | error e => rfl
        | ok body =>
          cases readItems key items with
          | error e => rfl
          | ok bodies => cases readItems key items' <;> rfl
    | _ => rfl

/-- Some objects as filters have together the formulas of all their members. -/
theorem map_flatten_readItems (key : String) {bodies : List (List (String × Json))}
    (h : ∀ body ∈ bodies, body ≠ []) :
    (readItems key (bodies.map .object)).map List.flatten = readMembers bodies.flatten := by
  induction bodies with
  | nil => rfl
  | cons body bodies ih =>
    obtain ⟨hbody, hbodies⟩ := List.forall_mem_cons.1 h
    rw [List.map_cons, readItems_object_cons key hbody, List.flatten_cons, readMembers_append,
      ← ih hbodies]
    cases readMembers body with
    | error e => rfl
    | ok fs => cases readItems key (bodies.map .object) <;> rfl

/-- Which filters stand under a connective does not depend on its key, but an error may name it. -/
theorem readItems_eq_ok_of_key {key : String} (key' : String) {items : List Json}
    {bodies : List (List Formula)} (h : readItems key items = .ok bodies) :
    readItems key' items = .ok bodies := by
  induction items generalizing bodies with
  | nil => exact h
  | cons item items ih =>
    cases item with
    | object members =>
      by_cases hempty : members = []
      · subst hempty
        rw [readItems] at h
        cases h
      · rw [readItems_object_cons key hempty] at h
        obtain ⟨body, hbody, h⟩ := bind_eq_ok.1 h
        obtain ⟨rest, hrest, h⟩ := bind_eq_ok.1 h
        rw [readItems_object_cons key' hempty, hbody, ih hrest]
        exact h
    | _ => cases h

theorem read_connective {scope : Scope} {key : String} {c : Connective}
    (hkey : Role.ofKey key = .ok (.connective c)) {items : List Json} (h : items ≠ []) :
    read scope key (.array items) = (readItems key items).map (junction c) := by
  obtain ⟨item, items, rfl⟩ := List.exists_cons_of_ne_nil h
  rw [read, hkey]
  change (do return junction c (← readItems key (item :: items))) = _
  cases readItems key (item :: items) <;> rfl

/-- The filters of a connective, one of which is a disjunction. -/
theorem readItems_nested (key : String) {ys : List Json} (h : ys ≠ []) (xs zs : List Json) :
    readItems key (Json.nested xs ys zs) = (do
      let before ← readItems key xs
      let inner ← readItems "$or" ys
      let after ← readItems key zs
      return before ++ [[junction .or inner]] ++ after) := by
  have hread : read .nested "$or" (.array ys) = (readItems "$or" ys).map (junction .or) :=
    read_connective rfl h
  rw [Json.nested, readItems_append, readItems_append,
    readItems_object_cons key (List.cons_ne_nil _ _), readMembers, hread, readMembers, readItems]
  cases readItems key xs with
  | error e => rfl
  | ok before =>
    cases readItems "$or" ys with
    | error e => rfl
    | ok inner => cases readItems key zs <;> rfl

theorem readItems_append_eq_ok_iff {key : String} {items items' : List Json}
    {bodies : List (List Formula)} :
    readItems key (items ++ items') = .ok bodies ↔ ∃ before after,
      readItems key items = .ok before ∧ readItems key items' = .ok after ∧
        before ++ after = bodies := by
  rw [readItems_append]
  constructor
  · intro h
    obtain ⟨before, hbefore, h⟩ := bind_eq_ok.1 h
    obtain ⟨after, hafter, h⟩ := bind_eq_ok.1 h
    exact ⟨before, after, hbefore, hafter, Except.ok.inj h⟩
  · rintro ⟨before, after, hbefore, hafter, rfl⟩
    rw [hbefore, hafter]
    rfl

/-- A disjunction among the filters of a connective is accepted exactly if its filters are accepted
there themselves. -/
theorem readItems_nested_eq_ok_iff (key : String) {ys : List Json} (h : ys ≠ []) {xs zs : List Json}
    {bodies : List (List Formula)} :
    readItems key (Json.nested xs ys zs) = .ok bodies ↔
      ∃ before inner after, readItems key xs = .ok before ∧ readItems key ys = .ok inner ∧
        readItems key zs = .ok after ∧ before ++ [[junction .or inner]] ++ after = bodies := by
  rw [readItems_nested key h]
  constructor
  · intro h
    obtain ⟨before, hbefore, h⟩ := bind_eq_ok.1 h
    obtain ⟨inner, hinner, h⟩ := bind_eq_ok.1 h
    obtain ⟨after, hafter, h⟩ := bind_eq_ok.1 h
    exact ⟨before, inner, after, hbefore, readItems_eq_ok_of_key key hinner, hafter,
      Except.ok.inj h⟩
  · rintro ⟨before, inner, after, hbefore, hinner, hafter, rfl⟩
    rw [hbefore, readItems_eq_ok_of_key "$or" hinner, hafter]
    rfl

/-! ### Lowering -/

/-- **A conjunction placed in a conjunction is dissolved**: what remains are the members of its
filters. -/
theorem lowerItems_of_absorbs_and {g : Group} (hg : g.absorbs .and) (items : List (List Formula)) :
    lowerItems g items = lowerAll g items.flatten := by
  induction items with
  | nil => rfl
  | cons fs items ih =>
    rw [lowerItems, hg, Bool.true_or, if_pos rfl, ih, List.flatten_cons, lowerAll_append]

theorem lowerItems_singleton (g : Group) (f : Formula) : lowerItems g [[f]] = f.lower g := by
  rw [lowerItems, lowerItems, if_pos (by simp), lowerAll, lowerAll, List.append_nil,
    List.append_nil]

/-- **A disjunction in a disjunction is dissolved**: what remains are its filters. -/
theorem lower_or_nested (g : Group) (xs ys zs : List (List Formula)) :
    (junction .or (xs ++ [[junction .or ys]] ++ zs)).lower g =
      (junction .or (xs ++ ys ++ zs)).lower g := by
  have hitems {g : Group} (hg : g.absorbs .or) :
      lowerItems g (xs ++ [[junction .or ys]] ++ zs) = lowerItems g (xs ++ ys ++ zs) := by
    rw [lowerItems_append, lowerItems_append, lowerItems_singleton, lower, if_pos hg,
      lowerItems_append, lowerItems_append]
  rw [lower, lower]
  split_ifs with hg
  · exact hitems hg
  · rw [hitems rfl]

theorem requiresModern_nested (c : Connective) (xs ys zs : List (List Formula)) :
    (junction c (xs ++ [[junction .or ys]] ++ zs)).requiresModern =
      (junction c (xs ++ ys ++ zs)).requiresModern := by
  simp only [requiresModern, tests, testsOfItems_eq, List.flatten_append, testsOfAll_append,
    List.flatten_singleton, testsOfAll, List.append_nil]

end Formula

/-! ### Negated disjunctions -/

open Condition

theorem Demand.alike_lower (path : Path) (d : Demand) :
    Alike (d.lower path ⟨.or, true⟩) (d.lower path ⟨.or, false⟩) := by
  unfold Demand.lower
  split
  · exact .refl _
  · exact .refl _
  · exact .refl _
  · exact .group _

theorem Demand.alike_flatMap_lower (path : Path) (demands : List Demand) :
    Alike (demands.flatMap (Demand.lower path ⟨.or, true⟩))
      (demands.flatMap (Demand.lower path ⟨.or, false⟩)) := by
  induction demands with
  | nil => exact .refl _
  | cons d demands ih =>
    rw [List.flatMap_cons, List.flatMap_cons]
    exact (alike_lower path d).append ih

namespace Formula

/-- What a formula adds to a disjunction does not depend on the polarity, but for a disjunction
around it. -/
theorem alike_lower (f : Formula) : Alike (f.lower ⟨.or, true⟩) (f.lower ⟨.or, false⟩) := by
  cases f with
  | field path demands =>
    rw [lower, lower, Demand.lowerAll, Demand.lowerAll]
    by_cases hseveral : 1 < demands.length
    · rw [if_pos (by simp [hseveral, Group.absorbs]), if_pos (by simp [hseveral, Group.absorbs])]
      exact .refl _
    · rw [if_neg (by simp [hseveral]), if_neg (by simp [hseveral])]
      exact Demand.alike_flatMap_lower path demands
  | within path body =>
    rw [lower, lower]
    exact .refl _
  | negation body =>
    rw [lower, lower]
    exact .refl _
  | junction c items =>
    rw [lower, lower]
    cases c with
    | and => exact .refl _
    | or => exact .group _
    | nor => exact .refl _

/-- **Filters have the same tests and the same truth value in a disjunction of either polarity.** -/
theorem alike_lowerItems (items : List (List Formula)) :
    Alike (lowerItems ⟨.or, true⟩ items) (lowerItems ⟨.or, false⟩ items) := by
  induction items with
  | nil => exact .refl _
  | cons fs items ih =>
    rw [lowerItems, lowerItems]
    refine .append ?_ ih
    match fs with
    | [f] =>
      rw [if_pos (by simp), if_pos (by simp), lowerAll, lowerAll, lowerAll, lowerAll]
      exact (alike_lower f).append (.refl _)
    | [] => exact .refl _
    | f :: f' :: fs =>
      rw [if_neg (by simp [Group.absorbs]), if_neg (by simp [Group.absorbs])]
      exact .refl _

theorem alike_nested (xs ys zs : List (List Formula)) :
    Alike (lowerItems ⟨.or, true⟩ (xs ++ [[junction .or ys]] ++ zs))
      (lowerItems ⟨.or, true⟩ (xs ++ ys ++ zs)) := by
  have hinner : Alike ((junction .or ys).lower ⟨.or, true⟩) (lowerItems ⟨.or, true⟩ ys) := by
    rw [lower]
    exact (Alike.group _).trans (alike_lowerItems ys).symm
  rw [lowerItems_append, lowerItems_append, lowerItems_singleton, lowerItems_append,
    lowerItems_append]
  exact ((Alike.refl _).append hinner).append (.refl _)

end Formula

/-! ### Assemblies -/

namespace Assembly

/-- Assemblies that differ at most in the groups of their tables, and not in what the tables say. -/
structure Agrees (t t' : Assembly) : Prop where
  tests : t.tests = t'.tests
  operands : t.operands = t'.operands
  truth : ∀ values, t.truth values = t'.truth values
  keys : t.keys = t'.keys
  comparisons : t.comparisons = t'.comparisons
  spatial : t.spatial = t'.spatial
  textSearches : t.textSearches = t'.textSearches
  sort : t.sort = t'.sort
  requiresModern : t.requiresModern = t'.requiresModern

/-- Alike conditions may replace each other in a disjunction, wherever it is placed. -/
theorem agrees_insert {cs ds : List Condition} (h : Alike cs ds) (negated : Bool) (t : Assembly)
    (parent : Nat) (modern : Bool) :
    (t.insert parent [.group .or negated cs] modern).Agrees
      (t.insert parent [.group .or negated ds] modern) := by
  have hleaves : leavesOfAll [.group .or negated cs] = leavesOfAll [.group .or negated ds] := by
    simp only [leavesOfAll, leaves, h.leaves]
  exact
    { tests := by rw [tests_insert, tests_insert, hleaves]
      operands := by simp only [insert, Condition.operands, hleaves]
      truth := fun values => truth_insert_congr (h.truth_group negated values) t parent modern
      keys := rfl
      comparisons := rfl
      spatial := rfl
      textSearches := rfl
      sort := rfl
      requiresModern := rfl }

variable {t : Assembly} {parent : Nat}

theorem load_and {n : Node} (hn : t.nodes[parent]? = some n) (hand : n.kind = .group .and)
    (scope : Scope) {bodies : List (List (String × Json))} (hne : bodies ≠ [])
    (hbodies : ∀ body ∈ bodies, body ≠ []) :
    t.load scope parent "$and" (.array (bodies.map .object)) = t.loadAll parent bodies.flatten := by
  have hparent : parent < t.nodes.length := (List.getElem?_eq_some_iff.1 hn).1
  have hgroup : (Node.groupAt t.nodes parent).absorbs .and := by
    simp [Node.groupAt, hn, Node.group, hand, Group.absorbs]
  have hread : Formula.read scope "$and" (.array (bodies.map .object)) =
      (Formula.readItems "$and" (bodies.map .object)).map (.junction .and) :=
    Formula.read_connective rfl (by simpa using hne)
  have hplace (items : List (List Formula)) :
      t.place parent (.junction .and items) = t.placeAll parent items.flatten := by
    rw [place, placeAll, Formula.lower, if_pos hgroup, Formula.lowerItems_of_absorbs_and hgroup,
      Formula.any_requiresModern, Formula.requiresModern, Formula.tests, Formula.testsOfItems_eq]
  rw [loadAll_eq_map hparent, ← Formula.map_flatten_readItems "$and" hbodies, load, hread]
  cases Formula.readItems "$and" (bodies.map .object) with
  | error e => rfl
  | ok items => exact congrArg Except.ok (hplace items)

theorem load_or (t : Assembly) (parent : Nat) (scope : Scope) {ys : List Json} (hne : ys ≠ [])
    (xs zs : List Json) :
    t.load scope parent "$or" (.array (Json.nested xs ys zs)) =
      t.load scope parent "$or" (.array (xs ++ ys ++ zs)) := by
  have hplace (before inner after : List (List Formula)) :
      t.place parent (.junction .or (before ++ [[.junction .or inner]] ++ after)) =
        t.place parent (.junction .or (before ++ inner ++ after)) := by
    rw [place, place, Formula.lower_or_nested, Formula.requiresModern_nested]
  rw [load, load, Formula.read_connective rfl (by simp [Json.nested]),
    Formula.read_connective rfl (by simp [hne]),
    Formula.readItems_nested "$or" hne, Formula.readItems_append, Formula.readItems_append]
  cases Formula.readItems "$or" xs with
  | error e => rfl
  | ok before =>
    cases Formula.readItems "$or" ys with
    | error e => rfl
    | ok inner =>
      cases Formula.readItems "$or" zs with
      | error e => rfl
      | ok after => exact congrArg Except.ok (hplace before inner after)

theorem load_nor_eq_ok_iff (t t' : Assembly) (parent : Nat) (scope : Scope) {items : List Json}
    (hne : items ≠ []) :
    t.load scope parent "$nor" (.array items) = .ok t' ↔
      ∃ bodies, Formula.readItems "$nor" items = .ok bodies ∧
        t.place parent (.junction .nor bodies) = t' := by
  rw [load, Formula.read_connective rfl hne, map_eq_ok]
  constructor
  · rintro ⟨f, hf, rfl⟩
    obtain ⟨bodies, hbodies, rfl⟩ := map_eq_ok.1 hf
    exact ⟨bodies, hbodies, rfl⟩
  · rintro ⟨bodies, hbodies, rfl⟩
    exact ⟨_, map_eq_ok.2 ⟨bodies, hbodies, rfl⟩, rfl⟩

/-- A disjunction inside a negated disjunction is accepted exactly if its filters are accepted there
themselves, and the two tables say the same. -/
theorem load_nor (t : Assembly) (parent : Nat) (scope : Scope) {ys : List Json} (hne : ys ≠ [])
    (xs zs : List Json) :
    ((∃ t', t.load scope parent "$nor" (.array (Json.nested xs ys zs)) =
        .ok t') ↔ ∃ t', t.load scope parent "$nor" (.array (xs ++ ys ++ zs)) = .ok t') ∧
    ∀ t₁ t₂,
      t.load scope parent "$nor" (.array (Json.nested xs ys zs)) = .ok t₁ →
      t.load scope parent "$nor" (.array (xs ++ ys ++ zs)) = .ok t₂ → t₁.Agrees t₂ := by
  have hnested (t' : Assembly) := load_nor_eq_ok_iff t t' parent scope
    (show Json.nested xs ys zs ≠ [] by simp [Json.nested])
  have hflat (t' : Assembly) := load_nor_eq_ok_iff t t' parent scope
    (show xs ++ ys ++ zs ≠ [] by simp [hne])
  simp only [hnested, hflat, Formula.readItems_nested_eq_ok_iff "$nor" hne,
    Formula.readItems_append_eq_ok_iff]
  refine ⟨⟨?_, ?_⟩, ?_⟩
  · rintro ⟨-, -, ⟨before, inner, after, hbefore, hinner, hafter, rfl⟩, rfl⟩
    exact ⟨_, _, ⟨_, after, ⟨before, inner, hbefore, hinner, rfl⟩, hafter, rfl⟩, rfl⟩
  · rintro ⟨-, -, ⟨-, after, ⟨before, inner, hbefore, hinner, rfl⟩, hafter, rfl⟩, rfl⟩
    exact ⟨_, _, ⟨before, inner, after, hbefore, hinner, hafter, rfl⟩, rfl⟩
  · rintro - - ⟨-, ⟨before, inner, after, hbefore, hinner, hafter, rfl⟩, rfl⟩
      ⟨-, ⟨-, after', ⟨before', inner', hbefore', hinner', rfl⟩, hafter', rfl⟩, rfl⟩
    obtain rfl := Except.ok.inj (hbefore.symm.trans hbefore')
    obtain rfl := Except.ok.inj (hinner.symm.trans hinner')
    obtain rfl := Except.ok.inj (hafter.symm.trans hafter')
    rw [place, place, Formula.requiresModern_nested]
    exact agrees_insert (Formula.alike_nested before inner after) true t parent _

/-- A disjunction inside a negated disjunction may keep a node of its own. -/
theorem exists_load_nor_ne (t : Assembly) (parent : Nat) (scope : Scope) :
    ∃ ys t₁ t₂, ys ≠ [] ∧
      t.load scope parent "$nor" (.array (Json.nested [] ys [])) = .ok t₁ ∧
      t.load scope parent "$nor" (.array ([] ++ ys ++ [])) = .ok t₂ ∧ t₁.nodes ≠ t₂.nodes := by
  have hlength (bodies : List (List Formula)) :
      (t.place parent (.junction .nor bodies)).nodes.length = t.nodes.length +
        sizeOfAll [.group .or true (Formula.lowerItems ⟨.or, true⟩ bodies)] :=
    Node.length_graft _ _ _
  refine ⟨[.object [("a", .null)], .object [("b", .null)]],
    t.place parent (.junction .nor [[.junction .or [[.field _ _], [.field _ _]]]]),
    t.place parent (.junction .nor [[.field _ _], [.field _ _]]), by simp, rfl, rfl, fun h => ?_⟩
  have heq := congrArg List.length h
  rw [hlength, hlength] at heq
  have hsize := Nat.add_left_cancel heq
  exact absurd hsize (by decide)

/-- **Connectives are associative.** Under a conjunction of either polarity, with or without a path
of its own, placing a conjunction of filters is placing the members of the filters in turn.
Anywhere, a disjunction inside a disjunction may be replaced by its filters. Both give the same
assembly or the same error. A disjunction inside a negated disjunction may be replaced by its
filters as well; the tables may then differ, but agree in their tests and in the truth value of the
root, whatever the truth values of the tests are. -/
theorem load_associative (t : Assembly) (parent : Nat) (scope : Scope) :
    (∀ n, t.nodes[parent]? = some n → n.kind = .group .and →
      ∀ bodies : List (List (String × Json)), bodies ≠ [] → (∀ body ∈ bodies, body ≠ []) →
        t.load scope parent "$and" (.array (bodies.map .object)) =
          t.loadAll parent bodies.flatten) ∧
    (∀ xs ys zs : List Json, ys ≠ [] →
      t.load scope parent "$or" (.array (Json.nested xs ys zs)) =
        t.load scope parent "$or" (.array (xs ++ ys ++ zs))) ∧
    (∀ xs ys zs : List Json, ys ≠ [] →
      ((∃ t', t.load scope parent "$nor" (.array (Json.nested xs ys zs)) = .ok t') ↔
        ∃ t', t.load scope parent "$nor" (.array (xs ++ ys ++ zs)) = .ok t') ∧
      ∀ t₁ t₂, t.load scope parent "$nor" (.array (Json.nested xs ys zs)) = .ok t₁ →
        t.load scope parent "$nor" (.array (xs ++ ys ++ zs)) = .ok t₂ → t₁.Agrees t₂) ∧
    ∃ xs ys zs t₁ t₂, ys ≠ [] ∧
      t.load scope parent "$nor" (.array (Json.nested xs ys zs)) = .ok t₁ ∧
      t.load scope parent "$nor" (.array (xs ++ ys ++ zs)) = .ok t₂ ∧ t₁.nodes ≠ t₂.nodes := by
  refine ⟨fun n hn hand bodies hne hbodies => load_and hn hand scope hne hbodies,
    fun xs ys zs hne => load_or t parent scope hne xs zs,
    fun xs ys zs hne => load_nor t parent scope hne xs zs, ?_⟩
  obtain ⟨ys, t₁, t₂, h⟩ := exists_load_nor_ne t parent scope
  exact ⟨[], ys, [], t₁, t₂, h⟩

/-- Filters under a negated conjunction that has just been opened. -/
theorem load_associative_negation :
    ∃ (t : Assembly) (n : Node) (t₁ t₂ : Assembly),
      t = empty.place 0 (.negation []) ∧ t.nodes[1]? = some n ∧ n.kind = .group .and ∧
      n.negated = true ∧
      t.load .nested 1 "$and"
          (.array ([[("a", .null), ("b", .array [.null])], [("c", .string "x")]].map .object)) =
        t.loadAll 1 [("a", .null), ("b", .array [.null]), ("c", .string "x")] ∧
      t.load .nested 1 "$or" (.array (Json.nested [.object [("a", .null)]] [.bool true] [])) =
        t.load .nested 1 "$or" (.array [.object [("a", .null)], .bool true]) ∧
      t.load .nested 1 "$nor"
          (.array (Json.nested [] [.object [("a", .null)], .object [("b", .null)]] [])) = .ok t₁ ∧
      t.load .nested 1 "$nor" (.array [.object [("a", .null)], .object [("b", .null)]]) = .ok t₂ ∧
      t₁.Agrees t₂ :=
  have h := load_associative (empty.place 0 (.negation [])) 1 .nested
  ⟨_, _, _, _, rfl, rfl, rfl, rfl,
    h.1 _ rfl rfl [[("a", .null), ("b", .array [.null])], [("c", .string "x")]] (by simp) (by simp),
    h.2.1 [.object [("a", .null)]] [.bool true] [] (by simp), rfl, rfl,
    (h.2.2.1 [] [.object [("a", .null)], .object [("b", .null)]] [] (by simp)).2 _ _ rfl rfl⟩

end Assembly

end DocFilter
