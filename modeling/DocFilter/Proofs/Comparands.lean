import DocFilter.Proofs.Acceptance.Tests
import DocFilter.Proofs.Leaves
import DocFilter.Proofs.Reading.Documents

/-!
# The operands of a filter

The operands of an accepted filter are the scalars of its document, in the order of the text: none
is lost, repeated or moved, and none is changed but those under `$date` and `$timestamp`, which take
the normal form of a date or timestamp.

A walk through the document lists its scalars with the modifier that each stands under. The tests of
a formula have their operands in this order, rule by rule of `Formula.Reads`, and bringing a formula
into the form in which it is rendered keeps the order.

## Main definitions

* `Json.comparands`: the scalars of a document that values are compared with, in order.
* `Json.Denotes`: the operand that a scalar becomes under a modifier.

## Main results

* `Filter.forall₂_denotes_operands`: the operands of an accepted document.
-/

namespace DocFilter

/-! ### Scalars of a document -/

/-- Whether a document is null. -/
def Json.isNull : Json → Bool
  | null => true
  | _ => false

/-- The scalars that an operator compares with: the items of a list, the bounds of an interval that
are not null, none for presence and the operand itself otherwise. -/
def Operator.comparands (v : Json) : Operator → List Json
  | oneOf | noneOf | all => v.items
  | present => []
  | between => v.items.filter fun bound => !bound.isNull
  | _ => [v]

namespace Json

mutual

/-- The scalars of a member of the object of a field, each with the modifier that it stands under;
`m` stands around the member. -/
def operatorComparands (m : Option Modifier) (key : String) (v : Json) :
    List (Option Modifier × Json) :=
  match Keyword.ofKey? key, v with
  | some (.operator op), v => (op.comparands v).map fun w => (m, w)
  | some .not, object members => operatorsComparands m members
  | some (.modifier m), object members => operatorsComparands (some m) members
  | some (.modifier m), v => [(some m, v)]
  | _, _ => []

/-- The scalars of the object of a field. -/
def operatorsComparands (m : Option Modifier) :
    List (String × Json) → List (Option Modifier × Json)
  | [] => []
  | (key, v) :: members => operatorComparands m key v ++ operatorsComparands m members

end

mutual

/-- The scalars of a member of a filter. Keywords that make no formula have none. -/
def memberComparands (key : String) (v : Json) : List (Option Modifier × Json) :=
  match Keyword.ofKey? key, v with
  | some .and, array items => itemsComparands items
  | some .or, array items => itemsComparands items
  | some .nor, array items => itemsComparands items
  | some .not, object members => membersComparands members
  | some .query, object members => membersComparands members
  | none, object members =>
    if members.all fun (k, _) => isFieldKey k then membersComparands members
    else operatorsComparands none members
  | none, array items => items.map fun w => (none, w)
  | none, v => [(none, v)]
  | _, _ => []

/-- The scalars of a filter object. -/
def membersComparands : List (String × Json) → List (Option Modifier × Json)
  | [] => []
  | (key, v) :: members => memberComparands key v ++ membersComparands members

/-- The scalars of the filters under a connective. -/
def itemsComparands : List Json → List (Option Modifier × Json)
  | object members :: items => membersComparands members ++ itemsComparands items
  | _ => []

end

/-- **The scalars of a document that values are compared with, in the order of the text**, each with
the modifier that it stands under. -/
def comparands : Json → List (Option Modifier × Json)
  | object members => membersComparands members
  | _ => []

/-- The operand that a scalar becomes: itself, except that a scalar other than null becomes a date
under `$date` and a timestamp under `$timestamp`. -/
inductive Denotes : Option Modifier × Json → Operand → Prop
  | plain {m : Option Modifier} {v : Json} (hv : v.isScalar)
      (hm : v = null ∨ m ≠ some .date ∧ m ≠ some .timestamp) : Denotes (m, v) ⟨v.scalar, .plain⟩
  | date {v : Json} {s : Scalar} (hv : v.isScalar) (hnull : v ≠ null)
      (hdate : ∀ key, (Operand.plain v.scalar).toDate key = .ok ⟨s, .date⟩) :
      Denotes (some .date, v) ⟨s, .date⟩
  | timestamp {v : Json} {s : Scalar} (hv : v.isScalar) (hnull : v ≠ null)
      (htimestamp : ∀ key, (Operand.plain v.scalar).toTimestamp key = .ok ⟨s, .timestamp⟩) :
      Denotes (some .timestamp, v) ⟨s, .timestamp⟩

end Json

theorem Operand.exists_toTemporal_of_isMoment (sense : Sense) (noun : String)
    (write : Moment → String) {v : Json} (hnull : v ≠ .null) (h : v.IsMoment) :
    ∃ s, ∀ key, (Operand.plain v.scalar).toTemporal sense noun write key = .ok ⟨s, sense⟩ := by
  cases v with
  | null => exact absurd rfl hnull
  | number n => exact ⟨.number n, fun _ => rfl⟩
  | string s =>
    obtain ⟨m, hm⟩ := h
    exact ⟨.string (write m), fun key => by simp [toTemporal, plain, Json.scalar, hm]⟩
  | _ => cases h

theorem Json.denotes_operand {m : Option Modifier} {v : Json} (h : v.IsOperand m) :
    Denotes (m, v) (v.operand m) := by
  obtain ⟨hv, hmoment⟩ := h
  by_cases hnull : v = .null
  · subst hnull
    exact .plain hv (.inl rfl)
  · have hscalar : ¬(Operand.plain v.scalar).isNull = true := by
      simpa [Json.scalar_eq_null_iff hv] using hnull
    unfold operand
    dsimp only
    rw [if_neg hscalar]
    split
    · obtain ⟨s, hs⟩ := Operand.exists_toTemporal_of_isMoment .date "date"
        (fun m => m.date.text) hnull (hmoment (.inl rfl))
      rw [show (Operand.plain v.scalar).toDate "" = .ok ⟨s, .date⟩ from hs ""]
      exact .date hv hnull hs
    · obtain ⟨s, hs⟩ := Operand.exists_toTemporal_of_isMoment .timestamp "timestamp"
        Moment.text hnull (hmoment (.inr rfl))
      rw [show (Operand.plain v.scalar).toTimestamp "" = .ok ⟨s, .timestamp⟩ from hs ""]
      exact .timestamp hv hnull hs
    · next hdate htimestamp => exact .plain hv (.inr ⟨hdate, htimestamp⟩)

/-! ### Tests -/

namespace Operator

theorem operands_tests {m : Option Modifier} {v : Json} {op : Operator} (h : op.Accepts m v) :
    (op.tests m v).flatMap Test.operands = (op.comparands v).map (Json.operand m) := by
  cases op with
  | oneOf | noneOf | all => simp [tests, comparands]
  | present => rfl
  | between =>
    obtain ⟨low, high, rfl, -, hlow, hhigh⟩ := h
    have hbound {w : Json} (hw : w.isScalar) : w.isNull = decide (w.scalar = .null) := by
      cases w <;> simp_all [Json.isNull, Json.scalar, Json.isScalar]
    simp only [tests, comparands, Json.items, List.filter_cons, List.filter_nil, hbound hlow.1,
      hbound hhigh.1]
    split_ifs <;> simp_all
  | _ => simp [tests, comparands]

theorem isOperand_of_mem_comparands {m : Option Modifier} {v w : Json} {op : Operator}
    (h : op.Accepts m v) (hw : w ∈ op.comparands v) : w.IsOperand m := by
  cases op with
  | oneOf | noneOf | all =>
    obtain ⟨items, rfl, -, hitems⟩ := h
    exact hitems w hw
  | present => cases hw
  | between =>
    obtain ⟨low, high, rfl, -, hlow, hhigh⟩ := h
    have hmem := List.mem_of_mem_filter hw
    simp only [Json.items, List.mem_cons, List.not_mem_nil, or_false] at hmem
    rcases hmem with rfl | rfl
    · exact hlow
    · exact hhigh
  | startsWith | regex | like | hasSubstring =>
    obtain rfl := List.mem_singleton.1 hw
    exact h.2
  | _ =>
    obtain rfl := List.mem_singleton.1 hw
    exact h

end Operator

/-- Members and the operands of what is read from them. -/
theorem forall₂_denotes_operatorsComparands {β : Type} {R : String × Json → List β → Prop}
    {operands : β → List Operand} {m : Option Modifier} {members : List (String × Json)}
    {parts : List (List β)} (h : List.Forall₂ R members parts)
    (hR : ∀ key v bs, R (key, v) bs →
      List.Forall₂ Json.Denotes (v.operatorComparands m key) (bs.flatMap operands)) :
    List.Forall₂ Json.Denotes (Json.operatorsComparands m members)
      (parts.flatten.flatMap operands) := by
  induction h with
  | nil => simp [Json.operatorsComparands]
  | cons hmember _ ih =>
    rw [List.flatten_cons, List.flatMap_append, Json.operatorsComparands]
    exact List.rel_append (hR _ _ _ hmember) ih

namespace Test

/-- **An accepted operator has its scalars as operands, in order.** -/
theorem forall₂_denotes_of_ofOperator {m : Option Modifier} {op : Operator} {key : String}
    {v : Json} {tests : List Test} (h : ofOperator m op key v = .ok tests) :
    List.Forall₂ Json.Denotes ((op.comparands v).map fun w => (m, w))
      (tests.flatMap Test.operands) := by
  have haccepts := exists_ofOperator_iff.1 ⟨tests, h⟩
  rw [(ofOperator_eq_ok h).1, Operator.operands_tests haccepts, List.forall₂_map_left_iff,
    List.forall₂_map_right_iff, List.forall₂_same]
  exact fun w hw => Json.denotes_operand (Operator.isOperand_of_mem_comparands haccepts hw)

theorem forall₂_denotes_of_readsUnder {m : Modifier} {key : String} {v : Json}
    {tests : List Test} (h : ReadsUnder m (key, v) tests) :
    List.Forall₂ Json.Denotes (v.operatorComparands (some m) key) (tests.flatMap operands) := by
  obtain ⟨op, hkey, htests⟩ := h
  rw [Json.operatorComparands.eq_def, show Keyword.ofKey? key = _ from hkey]
  exact forall₂_denotes_of_ofOperator htests

theorem forall₂_denotes_of_reads {key : String} {v : Json} {tests : List Test}
    (h : Reads (key, v) tests) :
    List.Forall₂ Json.Denotes (v.operatorComparands none key) (tests.flatMap operands) := by
  cases h with
  | operator hkey htests =>
    rw [Json.operatorComparands.eq_def, hkey]
    exact forall₂_denotes_of_ofOperator htests
  | modifier hkey _ htests =>
    rw [Json.operatorComparands.eq_def, hkey]
    exact forall₂_denotes_operatorsComparands htests fun _ _ _ => forall₂_denotes_of_readsUnder
  | scalar hkey hv htests =>
    rw [Json.operatorComparands.eq_def, hkey]
    cases v with
    | array items => cases hv
    | object members => cases hv
    | _ => exact forall₂_denotes_of_ofOperator htests

end Test

theorem Demand.flatMap_tests_map_test (ts : List Test) :
    (ts.map Demand.test).flatMap Demand.tests = ts := by
  simp [List.flatMap_map, Demand.tests]

theorem Demand.forall₂_denotes_of_reads {key : String} {v : Json} {demands : List Demand}
    (h : Reads (key, v) demands) :
    List.Forall₂ Json.Denotes (v.operatorComparands none key)
      (demands.flatMap fun d => d.tests.flatMap Test.operands) := by
  cases h with
  | negation hkey _ htests =>
    rw [Json.operatorComparands.eq_def, hkey, List.flatMap_singleton]
    exact forall₂_denotes_operatorsComparands htests fun _ _ _ => Test.forall₂_denotes_of_reads
  | tests htests =>
    rw [← List.flatMap_assoc, flatMap_tests_map_test]
    exact Test.forall₂_denotes_of_reads htests

/-! ### Formulas -/

namespace Formula

mutual

/-- **The tests of an accepted member have its scalars as operands, in order.** -/
theorem forall₂_denotes_of_reads {key : String} {v : Json} {f : Formula} :
    Reads (key, v) f →
      List.Forall₂ Json.Denotes (v.memberComparands key) (f.tests.flatMap Test.operands)
  | .junction (c := c) hkey _ hitems => by
      rw [Json.memberComparands.eq_def, Role.connective_of_ofKey hkey, tests]
      cases c <;> exact forall₂_denotes_of_readsItems hitems
  | .negation hkey _ hmembers => by
      rw [Json.memberComparands.eq_def, Role.negation_of_ofKey hkey, tests]
      exact forall₂_denotes_of_readsAll hmembers
  | .within hkey _ hdown hmembers => by
      rw [Json.memberComparands.eq_def, (Role.field_of_ofKey hkey).1, tests]
      dsimp only
      rw [isDownscope_eq_ok hdown, if_pos rfl]
      exact forall₂_denotes_of_readsAll hmembers
  | .operators hkey _ hdown hmembers => by
      rw [Json.memberComparands.eq_def, (Role.field_of_ofKey hkey).1, tests, List.flatMap_assoc]
      dsimp only
      rw [isDownscope_eq_ok hdown, if_neg Bool.false_ne_true]
      exact forall₂_denotes_operatorsComparands hmembers fun _ _ _ =>
        Demand.forall₂_denotes_of_reads
  | .all hkey htests => by
      rw [Json.memberComparands.eq_def, (Role.field_of_ofKey hkey).1, tests,
        Demand.flatMap_tests_map_test]
      exact Test.forall₂_denotes_of_ofOperator htests
  | .scalar hkey hv htests => by
      rw [Json.memberComparands.eq_def, (Role.field_of_ofKey hkey).1, tests,
        Demand.flatMap_tests_map_test]
      cases v with
      | array items => cases hv
      | object members => cases hv
      | _ => exact Test.forall₂_denotes_of_ofOperator htests

theorem forall₂_denotes_of_readsAll {members : List (String × Json)} {fs : List Formula} :
    ReadsAll members fs →
      List.Forall₂ Json.Denotes (Json.membersComparands members)
        ((testsOfAll fs).flatMap Test.operands)
  | .nil => by
      rw [Json.membersComparands, testsOfAll]
      exact .nil
  | @ReadsAll.cons (key, v) _ _ _ hmember hmembers => by
      rw [Json.membersComparands, testsOfAll, List.flatMap_append]
      exact List.rel_append (forall₂_denotes_of_reads hmember)
        (forall₂_denotes_of_readsAll hmembers)

theorem forall₂_denotes_of_readsItems {items : List Json} {bodies : List (List Formula)} :
    ReadsItems items bodies →
      List.Forall₂ Json.Denotes (Json.itemsComparands items)
        ((testsOfItems bodies).flatMap Test.operands)
  | .nil => by
      rw [Json.itemsComparands.eq_def, testsOfItems]
      exact .nil
  | .cons _ hmembers hitems => by
      rw [Json.itemsComparands, testsOfItems, List.flatMap_append]
      exact List.rel_append (forall₂_denotes_of_readsAll hmembers)
        (forall₂_denotes_of_readsItems hitems)

end

end Formula

/-! ### Documents -/

namespace Json

/-- The object of a field with a spatial or text operator is no object of fields. -/
theorem memberComparands_side {key operator : String} {operand : Json} {k : Keyword}
    (hkey : Keyword.ofKey? key = none) (hoperator : Keyword.ofKey? operator = some k)
    (hk : k.isConnective = false) :
    memberComparands key (object [(operator, operand)]) =
      operatorComparands none operator operand := by
  rw [memberComparands.eq_def, hkey]
  simp [isFieldKey, hoperator, hk, operatorsComparands]

theorem membersComparands_append (members members' : List (String × Json)) :
    membersComparands (members ++ members') =
      membersComparands members ++ membersComparands members' := by
  induction members with
  | nil => rfl
  | cons member members ih =>
    rw [List.cons_append, membersComparands, membersComparands, ih, List.append_assoc]

/-- Only the restricting members of a document have scalars. -/
theorem membersComparands_restricting (members : List (String × Json)) :
    membersComparands (Clause.restricting members) = membersComparands members := by
  induction members with
  | nil => rfl
  | cons member members ih =>
    obtain ⟨key, v⟩ := member
    rw [Clause.restricting_cons, membersComparands_append, ih, membersComparands,
      Clause.restricting, List.flatMap_singleton]
    congr 1
    dsimp only
    -- `$query` is replaced by its members, and a sort order or an envelope is dropped
    cases hkey : Keyword.ofKey? key with
    | none => simp [membersComparands]
    | some k =>
      cases k
      case query => cases v <;> rw [memberComparands.eq_def, hkey] <;> simp [membersComparands]
      case orderBy | envelope => rw [memberComparands.eq_def, hkey]; simp [membersComparands]
      all_goals simp [membersComparands]

end Json

namespace Clause

/-- The scalars of a restricting member are the operands of its formula, if it makes one. -/
theorem forall₂_denotes_of_reads {key : String} {v : Json} {clause : Clause}
    (h : Reads (key, v) clause) :
    List.Forall₂ Json.Denotes (v.memberComparands key)
      ((Formula.testsOfAll ([clause].filterMap formula?)).flatMap Test.operands) := by
  cases h with
  | formula hformula =>
    simpa [formula?, Formula.testsOfAll] using Formula.forall₂_denotes_of_reads hformula
  | keys hkey _ =>
    rw [Json.memberComparands.eq_def, hkey]
    exact .nil
  | comparisons hkey _ =>
    rw [Json.memberComparands.eq_def, hkey]
    exact .nil
  | spatial hkey _ hoperator _ =>
    rw [Json.memberComparands_side hkey hoperator rfl, Json.operatorComparands.eq_def, hoperator]
    exact .nil
  | textSearch hkey _ hoperator _ =>
    rw [Json.memberComparands_side hkey hoperator rfl, Json.operatorComparands.eq_def, hoperator]
    exact .nil

theorem testsOfAll_filterMap_cons (clause : Clause) (clauses : List Clause) :
    Formula.testsOfAll ((clause :: clauses).filterMap formula?) =
      Formula.testsOfAll ([clause].filterMap formula?) ++
        Formula.testsOfAll (clauses.filterMap formula?) := by
  cases clause <;> simp [List.filterMap_cons, formula?, Formula.testsOfAll]

theorem forall₂_denotes_of_forall₂_reads {members : List (String × Json)} {clauses : List Clause}
    (h : List.Forall₂ Reads members clauses) :
    List.Forall₂ Json.Denotes (Json.membersComparands members)
      ((Formula.testsOfAll (clauses.filterMap formula?)).flatMap Test.operands) := by
  induction h with
  | nil => exact .nil
  | cons hmember _ ih =>
    rw [Json.membersComparands, testsOfAll_filterMap_cons, List.flatMap_append]
    exact List.rel_append (forall₂_denotes_of_reads hmember) ih

theorem filterMap_formula?_filter (clauses : List Clause) :
    (clauses.filter restricts).filterMap formula? = clauses.filterMap formula? := by
  induction clauses with
  | nil => rfl
  | cons clause clauses ih =>
    cases clause <;> simp [List.filter_cons, List.filterMap_cons, restricts, formula?, ih]

end Clause

/-- **No operand is lost, repeated, moved or changed.** The operands of an accepted document are the
scalars of its formulas in the order of the text, each as it stands or, under `$date` and
`$timestamp`, in its normal form. -/
theorem Filter.forall₂_denotes_operands {d : Json} {f : Filter} (h : Filter.ofJson d = .ok f) :
    List.Forall₂ Json.Denotes d.comparands f.operands := by
  obtain ⟨members, clauses, rfl, rfl, hreads, -⟩ := Filter.reads_of_ofJson h
  have hdenotes := Clause.forall₂_denotes_of_forall₂_reads hreads
  rw [Clause.filterMap_formula?_filter, Json.membersComparands_restricting] at hdenotes
  rw [Filter.operands, Filter.ofClauses, Formula.operands_lowerAll, Json.comparands]
  exact hdenotes

/-- Scalars under a negated modifier, in a list beside null, between bounds of which one is null,
and beside a key and a sort order, which have none. -/
theorem Filter.forall₂_denotes_operands_nested :
    ∃ d, d = Json.object
        [("$query", .object
            [("$id", .string "k"),
              ("a", .object [("$not", .object
                [("$date", .object [("$in", .array [.null, .string "2024-02-29T23:30:00Z"])]),
                  ("$between", .array [.null, .number (.ofNat 9)])])]),
              ("$nor", .array [.object [("b", .array [.bool true, .string "x"])],
                .object [("c", .object [("e", .string "y"),
                  ("g", .object [("$exists", .bool true)])])]])]),
          ("$orderby", .object [("h", .number (.ofNat 1))])] ∧
      ∃ f, Filter.ofJson d = .ok f ∧
        f.operands = [.plain .null, ⟨.string "2024-02-29", .date⟩, .plain (.number (.ofNat 9)),
          .plain (.bool true), .plain (.string "x"), .plain (.string "y")] ∧
        List.Forall₂ Json.Denotes d.comparands f.operands := by
  have hread {d : Json} {os : List Operand}
      (h : (Filter.ofJson d).toOption.map Filter.operands = some os) :
      ∃ f, Filter.ofJson d = .ok f ∧ f.operands = os ∧
        List.Forall₂ Json.Denotes d.comparands f.operands := by
    obtain ⟨f, hf, hos⟩ := Option.map_eq_some_iff.1 h
    have hok : Filter.ofJson d = .ok f := by
      cases hd : Filter.ofJson d <;> simp_all [Except.toOption]
    exact ⟨f, hok, hos, Filter.forall₂_denotes_operands hok⟩
  exact exists_eq_left.2 (hread (by decide +kernel))

end DocFilter
