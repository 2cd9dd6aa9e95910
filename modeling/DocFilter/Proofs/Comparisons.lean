import DocFilter.Proofs.Acceptance.Filters
import DocFilter.Proofs.Sql.Paths

/-!
# Comparisons as conditions

A document of comparisons can stand under `$sqlJson`, where an index can serve it, and can be a
filter itself. The two are read by readers of their own, which tell keys apart, descend into
modifiers and convert operands each in their own way. Every document that the reader of comparisons
accepts is accepted as a filter, and its conditions are the comparisons as tests of single fields,
in the same order.

## Main definitions

* `Comparison.test`, `Comparison.condition`: a comparison as a test and as a condition.

## Main results

* `Comparison.ofScalar_of_ofOperand`: the two readers take an operand alike.
* `Comparison.read_of_readMember`, `Comparison.exists_formula_of_readField`: they take a member of
  the object of a field, and a field, alike.
* `Filter.ofJson_of_readAll`: a document under `$sqlJson` and the same document as a filter.
-/

namespace DocFilter

/-- Two readers of members, where the second reads what the first reads in another form. -/
theorem mapM_eq_ok_map {ε α β γ : Type} {f : α → Except ε β} {g : α → Except ε γ} {form : β → γ}
    (hstep : ∀ a b, f a = .ok b → g a = .ok (form b)) {as : List α} {bs : List β}
    (h : as.mapM f = .ok bs) : as.mapM g = .ok (bs.map form) :=
  mapM_eq_ok.2 (List.forall₂_map_right_iff.2 ((mapM_eq_ok.1 h).imp hstep))

/-! ### Comparisons as tests -/

namespace ComparisonOp

/-- The relation of the test, which is negated for `$ne`. -/
def relation : ComparisonOp → Relation
  | eq => .eq
  | ne => .eq
  | gt => .gt
  | gte => .gte
  | lt => .lt
  | lte => .lte

theorem ofOperator_eq_ofScalar {operator : Operator} {op : ComparisonOp}
    (h : ofOperator? operator = some op) (m : Option Modifier) (key : String) (v : Json) :
    Test.ofOperator m operator key v = Test.ofScalar m op.relation (op = ne) key v := by
  cases operator <;> cases h <;> rfl

end ComparisonOp

namespace Test

variable {place : Place} {m : Modifier} {key : String}

theorem read_object {members : List (String × Json)}
    (hkey : Keyword.ofKey? key = some (.modifier m)) (hne : members ≠ []) :
    read place key (.object members) =
      (members.mapM fun (k, v) => readModified place m k v).map List.flatten := by
  obtain ⟨member, members, rfl⟩ := List.exists_cons_of_ne_nil hne
  simp only [read, hkey]

theorem read_scalar {v : Json} (hkey : Keyword.ofKey? key = some (.modifier m))
    (hv : v.isScalar) : read place key v = ofOperator (some m) .eq key v := by
  cases v with
  | array items => cases hv
  | object members => cases hv
  | _ => simp only [read, hkey]

end Test

namespace Formula

variable {scope : Scope} {key : String} {path : Path}

theorem read_field_object {members : List (String × Json)} {demands : List Demand}
    (hrole : Role.ofKey key = .ok (.field path)) (hne : members ≠ [])
    (hdown : isDownscope key members = .ok false)
    (h : Demand.readAll scope key members = .ok demands) :
    read scope key (.object members) = .ok (.field path demands) := by
  rw [read]
  refine bind_eq_ok.2 ⟨_, hrole, ?_⟩
  dsimp only
  rw [if_neg (by simpa using hne)]
  exact bind_eq_ok.2 ⟨false, hdown, bind_eq_ok.2 ⟨demands, h, rfl⟩⟩

theorem read_field_scalar {v : Json} {tests : List Test}
    (hrole : Role.ofKey key = .ok (.field path)) (hv : v.isScalar)
    (h : Test.ofOperator none .eq key v = .ok tests) :
    read scope key v = .ok (.field path (tests.map .test)) := by
  cases v with
  | array items => cases hv
  | object members => cases hv
  | _ =>
    rw [read.eq_def]
    exact bind_eq_ok.2 ⟨_, hrole, bind_eq_ok.2 ⟨tests, h, rfl⟩⟩

end Formula

namespace Comparison

/-- The comparison as a test of the values of a field. -/
def test (c : Comparison) : Test :=
  ⟨c.returning, c.op.relation, c.op = .ne, [c.operand]⟩

/-- The comparison as a condition of a filter. -/
def condition (c : Comparison) : Condition :=
  .leaf c.path c.test

/-- Every engine understands a comparison whose conversion has a type of SQL. -/
theorem requiresModern_test {c : Comparison} (h : ∀ m ∈ c.returning, m.returning?.isSome) :
    c.test.requiresModern = false := by
  have hrelation : c.op.relation.requiresModern = false := by cases c.op <;> rfl
  have hmodifier : c.returning.any Modifier.requiresModern = false := by
    cases hreturning : c.returning with
    | none => rfl
    | some m =>
      have hm := h m hreturning
      cases m <;> first | rfl | cases hm
  rw [Test.requiresModern, test, hrelation, hmodifier, Bool.or_false]

/-! ### Operators and modifiers -/

variable {path : Path} {m : Option Modifier} {key : String} {v : Json}

/-- **An operand of a comparison is an operand of the test**, converted in the same way. -/
theorem ofScalar_of_ofOperand {op : ComparisonOp} {c : Comparison}
    (h : ofOperand path m op key v = .ok c) :
    Test.ofScalar m op.relation (op = .ne) key v = .ok [c.test] ∧ c.returning = m := by
  obtain ⟨o, ho, hrest⟩ := bind_eq_ok.1 h
  dsimp only at hrest
  split at hrest
  · cases hrest
  · next hnull =>
    -- null, which a test keeps as it is, has been refused here
    have htest {o' : Operand} (hcoerce : Test.coerce m key o = .ok o')
        (hc : (pure ⟨path, op, m, o'⟩ : Except Error Comparison) = .ok c) :
        Test.ofScalar m op.relation (op = .ne) key v = .ok [c.test] ∧ c.returning = m := by
      obtain rfl := Except.ok.inj hc
      exact ⟨bind_eq_ok.2 ⟨o, ho, bind_eq_ok.2 ⟨o', hcoerce, rfl⟩⟩, rfl⟩
    split at hrest
    · obtain ⟨o', ho', hc⟩ := bind_eq_ok.1 hrest
      exact htest ((if_neg hnull).trans ho') hc
    · obtain ⟨o', ho', hc⟩ := bind_eq_ok.1 hrest
      exact htest ((if_neg hnull).trans ho') hc
    · next hdate htimestamp =>
      obtain ⟨o', ho', hc⟩ := bind_eq_ok.1 hrest
      refine htest ?_ hc
      rw [Test.coerce, if_neg hnull]
      exacts [ho', hdate, htimestamp]

theorem ofOperator_of_readOperator {c : Comparison} (h : readOperator path m key v = .ok c) :
    ∃ op, Keyword.ofKey? key = some (.operator op) ∧
      Test.ofOperator m op key v = .ok [c.test] ∧ c.returning = m := by
  unfold readOperator at h
  split at h
  · next operator hkey =>
    split at h
    · next op hop =>
      refine ⟨operator, hkey, ?_⟩
      rw [ComparisonOp.ofOperator_eq_ofScalar hop]
      exact ofScalar_of_ofOperand h
    · cases h
  · cases h

theorem read_of_readModified {modifier : Modifier} {cs : List Comparison} (place : Place)
    (hkey : Keyword.ofKey? key = some (.modifier modifier))
    (h : readModified path modifier key v = .ok cs) :
    Test.read place key v = .ok (cs.map test) ∧ ∀ c ∈ cs, c.returning = some modifier := by
  unfold readModified at h
  split at h
  · cases h
  · next members hne =>
    have hstep (member : String × Json) (c : Comparison)
        (hc : readOperator path (some modifier) member.1 member.2 = .ok c) :
        Test.readModified place modifier member.1 member.2 = .ok [c.test] := by
      obtain ⟨op, hop, htests, -⟩ := ofOperator_of_readOperator hc
      simp only [Test.readModified, hop, htests]
    constructor
    · rw [Test.read_object hkey hne, mapM_eq_ok_map hstep h]
      exact congrArg Except.ok List.map_eq_flatMap.symm
    · intro c hc
      obtain ⟨member, -, hmember⟩ := exists_of_mem_mapM h hc
      obtain ⟨op, -, -, hreturning⟩ := ofOperator_of_readOperator hmember
      exact hreturning
  · cases h
  · next hobject harray =>
    obtain ⟨c, hc, rfl⟩ := map_eq_ok.1 h
    obtain ⟨htest, hreturning⟩ := ofScalar_of_ofOperand hc
    have hv : v.isScalar := by cases v <;> simp_all [Json.isScalar]
    rw [Test.read_scalar hkey hv]
    exact ⟨htest, List.forall_mem_singleton.2 hreturning⟩

/-- **A member of the object of a field has the comparisons for its tests**, and no conversion that
has no type of SQL. -/
theorem read_of_readMember {cs : List Comparison} (place : Place)
    (h : readMember path key v = .ok cs) :
    Test.read place key v = .ok (cs.map test) ∧
      ∀ c ∈ cs, ∀ m ∈ c.returning, m.returning?.isSome := by
  unfold readMember at h
  split at h
  · next modifier hkey =>
    split at h
    · next hreturning =>
      obtain ⟨htests, hmodifier⟩ := read_of_readModified place hkey h
      refine ⟨htests, fun c hc m hm => ?_⟩
      rw [hmodifier c hc, Option.mem_some] at hm
      exact hm ▸ hreturning
    · cases h
  · obtain ⟨c, hc, rfl⟩ := map_eq_ok.1 h
    obtain ⟨op, hkey, htests, hreturning⟩ := ofOperator_of_readOperator hc
    constructor
    · simp only [Test.read, hkey, htests, List.map_singleton]
    · refine List.forall_mem_singleton.2 fun m hm => ?_
      rw [hreturning] at hm
      cases hm

/-! ### Fields -/

/-- A member that is read as comparisons is an operator or a modifier. -/
theorem keyword_of_readMember {cs : List Comparison} (h : readMember path key v = .ok cs) :
    (∃ op, Keyword.ofKey? key = some (.operator op)) ∨
      ∃ m, Keyword.ofKey? key = some (.modifier m) := by
  unfold readMember at h
  split at h
  · exact .inr ⟨_, by assumption⟩
  · obtain ⟨c, hc, -⟩ := map_eq_ok.1 h
    obtain ⟨op, hkey, -⟩ := ofOperator_of_readOperator hc
    exact .inl ⟨op, hkey⟩

theorem demand_of_readMember {cs : List Comparison} (scope : Scope) (field : String)
    (h : readMember path key v = .ok cs) :
    Demand.read scope field key v = .ok (cs.map fun c => .test c.test) := by
  have hread : (Test.read ⟨scope, field, false⟩ key v).map (·.map Demand.test) =
      .ok (cs.map fun c => .test c.test) := by
    rw [(read_of_readMember _ h).1, Except.map, List.map_map]
    rfl
  unfold Demand.read
  rcases keyword_of_readMember h with ⟨op, hkey⟩ | ⟨m, hkey⟩
  · simp only [hkey, hread]
  · simp only [hkey, hread]

theorem isDownscope_of_readMember {field : String} {members : List (String × Json)}
    (hne : members ≠ [])
    (h : ∀ member ∈ members, ∃ cs, readMember path member.1 member.2 = .ok cs) :
    isDownscope field members = .ok false :=
  isDownscope_eq_false_of_forall hne fun member hmember =>
    have ⟨_, hcs⟩ := h member hmember
    Demand.exists_read_iff.1 ⟨_, demand_of_readMember .top field hcs⟩

theorem readSide?_of_readMember {field : String} {members : List (String × Json)}
    (h : ∀ member ∈ members, ∃ cs, readMember path member.1 member.2 = .ok cs) :
    Clause.readSide? field (.object members) = none := by
  unfold Clause.readSide?
  split
  · next operator operand heq =>
    obtain rfl := Json.object.inj heq
    obtain ⟨cs, hcs⟩ := h _ List.mem_cons_self
    rcases keyword_of_readMember hcs with ⟨op, hkey⟩ | ⟨m, hkey⟩
    · simp only [hkey]
    · simp only [hkey]
  · rfl

theorem role_of_ofSingletonText {field : String} (hkey : Keyword.ofKey? field = none)
    (hdollar : isDollarKey field = false) (h : Path.ofSingletonText field = .ok path) :
    Role.ofKey field = .ok (.field path) := by
  obtain ⟨p, hp, h⟩ := bind_eq_ok.1 h
  split at h
  · obtain rfl := Except.ok.inj h
    simp [Role.ofKey, hkey, hdollar, hp, Except.map]
  · cases h

/-- What the reader of comparisons accepts under a field: an object of operators and modifiers, or
a scalar that the value has to equal. -/
inductive Reads (path : Path) (field : String) : Json → List Comparison → Prop
  | members {members : List (String × Json)} {parts : List (List Comparison)} (hne : members ≠ [])
      (h : (members.mapM fun (k, v) => readMember path k v) = .ok parts) :
      Reads path field (.object members) parts.flatten
  | scalar {v : Json} {c : Comparison} (hv : v.isScalar)
      (h : ofOperand path none .eq field v = .ok c) : Reads path field v [c]

theorem reads_of_readField {field : String} {cs : List Comparison}
    (h : readField field v = .ok cs) : Keyword.ofKey? field = none ∧ isDollarKey field = false ∧
      ∃ path, Path.ofSingletonText field = .ok path ∧ Reads path field v cs := by
  unfold readField at h
  dsimp only at h
  split at h
  · cases h
  · next hkey =>
    split at h
    · cases h
    · next hdollar =>
      obtain ⟨path, hpath, h⟩ := bind_eq_ok.1 h
      refine ⟨Option.not_isSome_iff_eq_none.1 hkey, Bool.eq_false_iff.2 hdollar, path, hpath, ?_⟩
      split at h
      · cases h
      · next members hne _ =>
        obtain ⟨parts, hparts, h⟩ := bind_eq_ok.1 h
        obtain rfl := Except.ok.inj h
        exact .members hne hparts
      · cases h
      · next hobject harray =>
        obtain ⟨c, hc, h⟩ := bind_eq_ok.1 h
        obtain rfl := Except.ok.inj h
        refine .scalar ?_ hc
        cases v <;> simp_all [Json.isScalar]

namespace Reads

variable {field : String} {cs : List Comparison}

theorem path_eq (h : Reads path field v cs) : ∀ c ∈ cs, c.path = path := by
  cases h with
  | members hne h =>
    intro c hc
    obtain ⟨part, hpart, hc⟩ := List.mem_flatten.1 hc
    obtain ⟨member, -, hmember⟩ := exists_of_mem_mapM h hpart
    exact path_of_readMember hmember c hc
  | scalar hv h => exact List.forall_mem_singleton.2 (path_of_ofOperand h)

theorem requiresModern_eq_false (h : Reads path field v cs) :
    ∀ c ∈ cs, c.test.requiresModern = false := by
  cases h with
  | members hne h =>
    intro c hc
    obtain ⟨part, hpart, hc⟩ := List.mem_flatten.1 hc
    obtain ⟨member, -, hmember⟩ := exists_of_mem_mapM h hpart
    exact requiresModern_test ((read_of_readMember ⟨.top, field, false⟩ hmember).2 c hc)
  | scalar hv h =>
    refine List.forall_mem_singleton.2 (requiresModern_test fun m hm => ?_)
    rw [(ofScalar_of_ofOperand h).2] at hm
    cases hm

/-- **A field is the formula that demands all its comparisons.** -/
theorem formula_eq (h : Reads path field v cs) (hrole : Role.ofKey field = .ok (.field path)) :
    Formula.read .top field v = .ok (.field path (cs.map fun c => .test c.test)) := by
  cases h with
  | @members members parts hne h =>
    have hmembers := exists_mapM_eq_ok.1 ⟨parts, h⟩
    have hdemands : Demand.readAll .top field members =
        .ok (parts.flatten.map fun c => .test c.test) := by
      rw [Demand.readAll, mapM_eq_ok_map (fun _ _ => demand_of_readMember .top field) h,
        Except.map, List.map_flatten]
    exact Formula.read_field_object hrole hne (isDownscope_of_readMember hne hmembers) hdemands
  | scalar hv h => exact Formula.read_field_scalar hrole hv (ofScalar_of_ofOperand h).1

theorem readSide?_eq_none (h : Reads path field v cs) : Clause.readSide? field v = none := by
  cases h with
  | members hne h => exact readSide?_of_readMember (exists_mapM_eq_ok.1 ⟨_, h⟩)
  | scalar hv h =>
    unfold Clause.readSide?
    split
    · cases hv
    · rfl

end Reads

/-- The conditions of a field are its comparisons. -/
theorem lower_field {cs : List Comparison} (h : ∀ c ∈ cs, c.path = path) :
    (Formula.field path (cs.map fun c => .test c.test)).lower .root = cs.map condition := by
  have hlower : Demand.lowerAll path .root (cs.map fun c => .test c.test) =
      cs.flatMap fun c => [Condition.leaf path c.test] := by
    rw [Demand.lowerAll, if_neg (by simp [Group.root, Group.absorbs]), List.flatMap_map]
    rfl
  rw [Formula.lower, hlower, ← List.map_eq_flatMap]
  exact List.map_congr_left fun c hc => by rw [condition, h c hc]

theorem requiresModern_field {cs : List Comparison} (h : ∀ c ∈ cs, c.test.requiresModern = false) :
    (Formula.field path (cs.map fun c => .test c.test)).requiresModern = false := by
  rw [Formula.requiresModern, Formula.tests, List.flatMap_map, List.any_eq_false]
  intro t ht
  obtain ⟨c, hc, ht⟩ := List.mem_flatMap.1 ht
  obtain rfl : t = c.test := List.mem_singleton.1 ht
  simp [h c hc]

/-- **A field of comparisons is a formula** whose conditions are the comparisons. -/
theorem exists_formula_of_readField {field : String} {cs : List Comparison}
    (h : readField field v = .ok cs) (earlier : List String) :
    Keyword.ofKey? field = none ∧ ∃ f : Formula, Clause.read earlier field v = .ok (.formula f) ∧
      f.lower .root = cs.map condition ∧ f.requiresModern = false := by
  obtain ⟨hkey, hdollar, path, hpath, hreads⟩ := reads_of_readField h
  have hformula := hreads.formula_eq (role_of_ofSingletonText hkey hdollar hpath)
  refine ⟨hkey, _, ?_, lower_field hreads.path_eq,
    requiresModern_field hreads.requiresModern_eq_false⟩
  simp [Clause.read, hkey, hdollar, hreads.readSide?_eq_none, hformula, Except.map]

end Comparison

/-! ### Documents -/

namespace Filter

theorem ofClauses_formula_cons (f : Formula) (clauses : List Clause) :
    ofClauses (.formula f :: clauses) =
      { ofClauses clauses with
        conditions := f.lower .root ++ (ofClauses clauses).conditions
        requiresModern := f.requiresModern || (ofClauses clauses).requiresModern } :=
  rfl

/-- Fields of comparisons are read as a document whose conditions are all the comparisons. -/
theorem readDocument_of_readField {members : List (String × Json)} {parts : List (List Comparison)}
    (h : List.Forall₂ (fun (member : String × Json) part =>
      Comparison.readField member.1 member.2 = .ok part) members parts) (earlier : List String) :
    ∃ clauses, Clause.readDocument false earlier members = .ok clauses ∧
      ofClauses clauses =
        { ofClauses [] with conditions := parts.flatten.map Comparison.condition } := by
  induction h generalizing earlier with
  | nil => exact ⟨[], rfl, rfl⟩
  | @cons member part members parts hmember hmembers ih =>
    obtain ⟨hkey, f, hread, hlower, hmodern⟩ :=
      Comparison.exists_formula_of_readField hmember earlier
    obtain ⟨clauses, hclauses, hfilter⟩ := ih (member.1 :: earlier)
    refine ⟨.formula f :: clauses, ?_, ?_⟩
    · refine bind_eq_ok.2 ⟨[.formula f], ?_, bind_eq_ok.2 ⟨clauses, hclauses, rfl⟩⟩
      simp [Clause.readOuter, hkey, hread, Except.map]
    · rw [ofClauses_formula_cons, hfilter, hlower, hmodern, List.flatten_cons, List.map_append]
      rfl

theorem ofJson_of_readDocument {members : List (String × Json)} {clauses : List Clause}
    (hquery : countKey "$query" members = 0)
    (h : Clause.readDocument false [] members = .ok clauses) :
    ofJson (.object members) = .ok (ofClauses clauses) := by
  refine bind_eq_ok.2 ⟨members, rfl, ?_⟩
  rw [hquery]
  exact bind_eq_ok.2 ⟨clauses, h, rfl⟩

theorem ofJson_sqlJson {v : Json} {cs : List Comparison} (h : Comparison.readAll v = .ok cs) :
    ofJson (.object [("$sqlJson", v)]) = .ok { ofClauses [] with comparisons := cs } := by
  have hclause : Clause.read [] "$sqlJson" v = .ok (.comparisons cs) :=
    bind_eq_ok.2 ⟨(), rfl, bind_eq_ok.2 ⟨cs, h, rfl⟩⟩
  have hdocument : Clause.readDocument false [] [("$sqlJson", v)] = .ok [.comparisons cs] :=
    bind_eq_ok.2 ⟨[.comparisons cs], map_eq_ok.2 ⟨_, hclause, rfl⟩, rfl⟩
  have hcomparisons : ofClauses [.comparisons cs] = { ofClauses [] with comparisons := cs } :=
    congrArg (fun comparisons => { ofClauses [] with comparisons }) (List.append_nil cs)
  rw [← hcomparisons]
  exact ofJson_of_readDocument rfl hdocument

theorem ofJson_comparisons {v : Json} {cs : List Comparison} (h : Comparison.readAll v = .ok cs) :
    ofJson v = .ok { ofClauses [] with conditions := cs.map Comparison.condition } := by
  obtain ⟨members, hmembers, h⟩ := bind_eq_ok.1 h
  obtain ⟨parts, hparts, h⟩ := bind_eq_ok.1 h
  obtain rfl := Except.ok.inj h
  obtain ⟨rfl, -⟩ := Demand.expectSomeMembers_eq_ok hmembers
  have hquery : countKey "$query" members = 0 := by
    refine countKey_eq_zero_iff.2 fun member hmember heq => ?_
    obtain ⟨part, hpart⟩ := exists_mapM_eq_ok.1 ⟨parts, hparts⟩ member hmember
    have hkey := (Comparison.reads_of_readField hpart).1
    rw [heq] at hkey
    revert hkey
    decide
  obtain ⟨clauses, hclauses, hfilter⟩ := readDocument_of_readField (mapM_eq_ok.1 hparts) []
  rw [← hfilter]
  exact ofJson_of_readDocument hquery hclauses

/-- **A document means the same under `$sqlJson` and as a filter.** Under `$sqlJson` it contributes
comparisons. As a filter it is accepted too, and its conditions, which are single tests, are these
comparisons one by one and in order. -/
theorem ofJson_of_readAll {v : Json} {cs : List Comparison} (h : Comparison.readAll v = .ok cs) :
    ofJson (.object [("$sqlJson", v)]) = .ok { ofClauses [] with comparisons := cs } ∧
      ofJson v = .ok { ofClauses [] with conditions := cs.map Comparison.condition } :=
  ⟨ofJson_sqlJson h, ofJson_comparisons h⟩

/-- An operator beside a modifier with two operators, whose dates are converted, and a scalar. -/
theorem ofJson_of_readAll_date :
    ∃ v, v = Json.object
        [("a.b", .object [("$ne", .string "x"), ("$date", .object
            [("$gte", .string "2024-02-29T23:30:00-01:00"), ("$lt", .number (.ofNat 0))])]),
          ("c", .bool true)] ∧
      ∃ cs, Comparison.readAll v = .ok cs ∧
        cs.map Comparison.test =
          [⟨none, .eq, true, [⟨.string "x", .plain⟩]⟩,
            ⟨some .date, .gte, false, [⟨.string "2024-03-01", .date⟩]⟩,
            ⟨some .date, .lt, false, [⟨.number (.ofNat 0), .date⟩]⟩,
            ⟨none, .eq, false, [⟨.bool true, .plain⟩]⟩] ∧
        ofJson (.object [("$sqlJson", v)]) = .ok { ofClauses [] with comparisons := cs } ∧
        ofJson v = .ok { ofClauses [] with conditions := cs.map Comparison.condition } := by
  have hread {v : Json} {tests : List Test}
      (h : (Comparison.readAll v).toOption.map (·.map Comparison.test) = some tests) :
      ∃ cs, Comparison.readAll v = .ok cs ∧ cs.map Comparison.test = tests ∧
        ofJson (.object [("$sqlJson", v)]) = .ok { ofClauses [] with comparisons := cs } ∧
        ofJson v = .ok { ofClauses [] with conditions := cs.map Comparison.condition } := by
    obtain ⟨cs, hcs, htests⟩ := exists_of_toOption_map h
    exact ⟨cs, hcs, htests, ofJson_of_readAll hcs⟩
  exact exists_eq_left.2 (hread (by decide +kernel))

end Filter

end DocFilter
