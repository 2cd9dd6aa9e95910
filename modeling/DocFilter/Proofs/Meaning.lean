import DocFilter.Proofs.Shape

/-!
# The meaning of filters

A filter means a condition on the places of documents. Its meaning is given three times: for the
document that the filter is written as, by recursion over that document; for the formula that is
read from it; and for the tree of conditions that is rendered. In each case an interpretation says
when a single comparison holds at a place and to which places a path leads.

Reading keeps the meaning, rule by rule of `Formula.Reads`. What stands beside the formulas (keys,
comparisons of single values, spatial restrictions and text searches) is not interpreted further: it
is a conjunct of the whole.

## Main definitions

* `Interpretation`: the meaning of comparisons and paths.
* `Json.Holds`: the meaning of a document as a filter.
* `Formula.Holds`, `Condition.Holds`, `Filter.Holds`: the meanings of what is read from it.

## Main results

* `Formula.holds_of_reads`: reading keeps the meaning of a member.
-/

namespace DocFilter

universe u

/-- A meaning of the parts of filters at the places `α` of documents. -/
structure Interpretation (α : Type u) where
  /-- Whether the values at a path, converted by a modifier, stand in a relation to operands. -/
  atom : Path → Option Modifier → Relation → List Operand → α → Prop
  /-- Whether a path leads from one place to another. -/
  selects : Path → α → α → Prop
  keys : List Bind → α → Prop
  comparison : Comparison → α → Prop
  spatial : Spatial → α → Prop
  textSearch : TextSearch → α → Prop

variable {α : Type u} (I : Interpretation α)

/-! ### Documents -/

/-- What an operator with the operand `v` demands of the field at `path`. -/
def Operator.Holds (path : Path) (m : Option Modifier) (v : Json) (a : α) : Operator → Prop
  | eq => I.atom path m .eq [v.operand m] a
  | ne => ¬I.atom path m .eq [v.operand m] a
  | gt => I.atom path m .gt [v.operand m] a
  | gte => I.atom path m .gte [v.operand m] a
  | lt => I.atom path m .lt [v.operand m] a
  | lte => I.atom path m .lte [v.operand m] a
  | oneOf => I.atom path m .oneOf (v.items.map (Json.operand m)) a
  | noneOf => ¬I.atom path m .oneOf (v.items.map (Json.operand m)) a
  | all => I.atom path m .all (v.items.map (Json.operand m)) a
  | present =>
    if (Operand.plain v.scalar).isTruthy then I.atom path m .present [] a
    else ¬I.atom path m .present [] a
  | between =>
    match v.items with
    | [low, high] =>
      (low.scalar ≠ .null → I.atom path m .gte [low.operand m] a) ∧
        (high.scalar ≠ .null → I.atom path m .lte [high.operand m] a)
    | _ => True
  | startsWith => I.atom path m .startsWith [v.operand m] a
  | regex => I.atom path m .regex [v.operand m] a
  | like => I.atom path m .like [v.operand m] a
  | hasSubstring => I.atom path m .hasSubstring [v.operand m] a

/-- The path that a field name is. -/
def Path.named (name : String) : Path :=
  (Path.ofText name).toOption.getD .root

namespace Json

mutual

/-- What a member of the object of a field demands of the field at `path`, under the modifier `m` if
it is given. -/
def OperatorHolds (path : Path) (m : Option Modifier) (key : String) (v : Json) (a : α) : Prop :=
  match Keyword.ofKey? key, v with
  | some (.operator op), v => op.Holds I path m v a
  | some .not, object members => ¬OperatorsHold path m members a
  | some (.modifier m), object members => OperatorsHold path (some m) members a
  | some (.modifier m), v => I.atom path (some m) .eq [v.operand (some m)] a
  | some (.spatial relation), v => ∀ s, Spatial.read path relation v = .ok s → I.spatial s a
  | some .contains, v => ∀ t, TextSearch.read path v = .ok t → I.textSearch t a
  | _, _ => True

/-- All that the object of a field demands. -/
def OperatorsHold (path : Path) (m : Option Modifier) : List (String × Json) → α → Prop
  | [], _ => True
  | (key, v) :: members, a => OperatorHolds path m key v a ∧ OperatorsHold path m members a

end

mutual

/-- The meaning of a member of a filter. A field whose object names fields or connectives demands
some place at its path where all members hold. -/
def MemberHolds (key : String) (v : Json) (a : α) : Prop :=
  match Keyword.ofKey? key, v with
  | some .and, array items => AllHold items a
  | some .or, array items => SomeHolds items a
  | some .nor, array items => ¬SomeHolds items a
  | some .not, object members => ¬MembersHold members a
  | some .query, object members => MembersHold members a
  | some .id, v => ∀ ks, readKeys v = .ok ks → I.keys ks a
  | some .sqlJson, v => ∀ cs, Comparison.readAll v = .ok cs → ∀ c ∈ cs, I.comparison c a
  | none, object members =>
    if members.all fun (k, _) => isFieldKey k then
      ∃ b, I.selects (.named key) a b ∧ MembersHold members b
    else OperatorsHold I (.named key) none members a
  | none, array items => I.atom (.named key) none .all (items.map (operand none)) a
  | none, v => I.atom (.named key) none .eq [v.operand none] a
  | _, _ => True

/-- The meaning of a filter object: all members hold. -/
def MembersHold : List (String × Json) → α → Prop
  | [], _ => True
  | (key, v) :: members, a => MemberHolds key v a ∧ MembersHold members a

/-- All filters of a list hold. -/
def AllHold : List Json → α → Prop
  | object members :: items, a => MembersHold members a ∧ AllHold items a
  | _, _ => True

/-- Some filter of a list holds. -/
def SomeHolds : List Json → α → Prop
  | object members :: items, a => MembersHold members a ∨ SomeHolds items a
  | _, _ => False

end

/-- **The meaning of a document as a filter.** -/
def Holds : Json → α → Prop
  | object members, a => MembersHold I members a
  | _, _ => True

end Json

/-! ### Formulas and conditions -/

/-- Whether a test of the field at `path` holds at a place. -/
def Test.Holds (path : Path) (t : Test) (a : α) : Prop :=
  if t.negated then ¬I.atom path t.modifier t.relation t.operands a
  else I.atom path t.modifier t.relation t.operands a

theorem Test.holds_negate (path : Path) (t : Test) (a : α) :
    t.negate.Holds I path a ↔ ¬t.Holds I path a := by
  cases h : t.negated <;> simp [Test.Holds, Test.negate, h]

/-- Whether a demand on the field at `path` is met. -/
def Demand.Holds (path : Path) : Demand → α → Prop
  | test t, a => t.Holds I path a
  | negation ts, a => ¬∀ t ∈ ts, t.Holds I path a

namespace Formula

mutual

/-- The meaning of a formula. -/
def Holds : Formula → α → Prop
  | field path demands, a => ∀ d ∈ demands, d.Holds I path a
  | within path body, a => ∃ b, I.selects path a b ∧ AllHold body b
  | negation body, a => ¬AllHold body a
  | junction .and items, a => EveryHolds items a
  | junction .or items, a => SomeHolds items a
  | junction .nor items, a => ¬SomeHolds items a

/-- The meaning of the formulas of a filter: all of them hold. -/
def AllHold : List Formula → α → Prop
  | [], _ => True
  | f :: fs, a => f.Holds a ∧ AllHold fs a

/-- All filters under a connective hold. -/
def EveryHolds : List (List Formula) → α → Prop
  | [], _ => True
  | fs :: rest, a => AllHold fs a ∧ EveryHolds rest a

/-- Some filter under a connective holds. -/
def SomeHolds : List (List Formula) → α → Prop
  | [], _ => False
  | fs :: rest, a => AllHold fs a ∨ SomeHolds rest a

end

end Formula

namespace Condition

mutual

/-- The meaning of a condition. -/
def Holds : Condition → α → Prop
  | leaf path test, a => test.Holds I path a
  | group .and false children, a => AllHold children a
  | group .and true children, a => ¬AllHold children a
  | group .or false children, a => SomeHolds children a
  | group .or true children, a => ¬SomeHolds children a
  | within path children, a => ∃ b, I.selects path a b ∧ AllHold children b

/-- All conditions hold. -/
def AllHold : List Condition → α → Prop
  | [], _ => True
  | c :: cs, a => c.Holds a ∧ AllHold cs a

/-- Some condition holds. -/
def SomeHolds : List Condition → α → Prop
  | [], _ => False
  | c :: cs, a => c.Holds a ∨ SomeHolds cs a

end

end Condition

/-- The meaning of a filter that has been read: all of its conditions and all of the restrictions
beside them. -/
def Filter.Holds (f : Filter) (a : α) : Prop :=
  Condition.AllHold I f.conditions a ∧ (f.keys ≠ [] → I.keys f.keys a) ∧
    (∀ c ∈ f.comparisons, I.comparison c a) ∧ (∀ s ∈ f.spatial, I.spatial s a) ∧
    ∀ t ∈ f.textSearches, I.textSearch t a

/-! ### Reading keeps the meaning -/

section Operators

variable {I} {path : Path} {a : α}

/-- The tests of an operator hold together exactly when the operator does. -/
theorem Operator.forall_tests_holds (op : Operator) (m : Option Modifier) (v : Json) :
    (∀ t ∈ op.tests m v, t.Holds I path a) ↔ op.Holds I path m v a := by
  cases op
  case present =>
    cases h : (Operand.plain v.scalar).isTruthy <;>
      simp [Operator.tests, Operator.Holds, Test.Holds, h]
  case between =>
    simp only [Operator.tests, Operator.Holds]
    rcases v.items with _ | ⟨low, _ | ⟨high, _ | ⟨_, _⟩⟩⟩
    · simp
    · simp
    · by_cases hlow : low.scalar = .null <;> by_cases hhigh : high.scalar = .null <;>
        simp [Test.Holds, hlow, hhigh]
    · simp
  all_goals simp [Operator.tests, Operator.Holds, Test.Holds]

theorem Test.forall_holds_of_ofOperator {m : Option Modifier} {op : Operator} {key : String}
    {v : Json} {tests : List Test} (h : Test.ofOperator m op key v = .ok tests) :
    (∀ t ∈ tests, t.Holds I path a) ↔ op.Holds I path m v a := by
  rw [(Test.ofOperator_eq_ok h).1, Operator.forall_tests_holds]

/-- If the parts of every member mean what the member does, all parts together mean what the members
do together. -/
theorem Json.forall_flatten_iff_operatorsHold {β : Type} {R : String × Json → List β → Prop}
    {P : β → Prop} {m : Option Modifier} {members : List (String × Json)} {parts : List (List β)}
    (h : List.Forall₂ R members parts)
    (hR : ∀ key v bs, R (key, v) bs → ((∀ b ∈ bs, P b) ↔ Json.OperatorHolds I path m key v a)) :
    (∀ b ∈ parts.flatten, P b) ↔ Json.OperatorsHold I path m members a := by
  induction h with
  | nil => simp [Json.OperatorsHold]
  | cons hmember _ ih =>
    rw [List.flatten_cons, List.forall_mem_append, Json.OperatorsHold, hR _ _ _ hmember, ih]

theorem Test.forall_holds_of_readsUnder {m : Modifier} {key : String} {v : Json}
    {tests : List Test} (h : Test.ReadsUnder m (key, v) tests) :
    (∀ t ∈ tests, t.Holds I path a) ↔ Json.OperatorHolds I path (some m) key v a := by
  obtain ⟨op, hkey, htests⟩ := h
  rw [forall_holds_of_ofOperator htests, Json.OperatorHolds.eq_def,
    show Keyword.ofKey? key = _ from hkey]

theorem Test.forall_holds_of_reads {key : String} {v : Json} {tests : List Test}
    (h : Test.Reads (key, v) tests) :
    (∀ t ∈ tests, t.Holds I path a) ↔ Json.OperatorHolds I path none key v a := by
  cases h with
  | operator hkey htests => rw [forall_holds_of_ofOperator htests, Json.OperatorHolds.eq_def, hkey]
  | modifier hkey _ htests =>
    rw [Json.OperatorHolds.eq_def, hkey]
    exact Json.forall_flatten_iff_operatorsHold htests fun _ _ _ => forall_holds_of_readsUnder
  | scalar hkey hv htests =>
    rw [forall_holds_of_ofOperator htests, Json.OperatorHolds.eq_def, hkey]
    cases v with
    | array items => cases hv
    | object members => cases hv
    | _ => rfl

theorem Demand.forall_holds_of_reads {key : String} {v : Json} {demands : List Demand}
    (h : Demand.Reads (key, v) demands) :
    (∀ d ∈ demands, d.Holds I path a) ↔ Json.OperatorHolds I path none key v a := by
  cases h with
  | negation hkey _ htests =>
    rw [Json.OperatorHolds.eq_def, hkey]
    simp only [List.mem_singleton, forall_eq, Demand.Holds]
    exact not_congr (Json.forall_flatten_iff_operatorsHold htests fun _ _ _ =>
      Test.forall_holds_of_reads)
  | tests htests =>
    rw [← Test.forall_holds_of_reads htests, List.forall_mem_map]
    rfl

end Operators

theorem Path.named_of_ofText {name : String} {path : Path} (h : Path.ofText name = .ok path) :
    Path.named name = path := by
  rw [Path.named, h]
  rfl

namespace Formula

variable {I} {a : α}

/-- A field with the tests of an implicit operator. -/
theorem field_holds_of_ofOperator {op : Operator} {key : String} {v : Json} {tests : List Test}
    {path : Path} (h : Test.ofOperator none op key v = .ok tests) :
    (field path (tests.map .test)).Holds I a ↔ op.Holds I path none v a := by
  rw [Holds, List.forall_mem_map]
  exact Test.forall_holds_of_ofOperator h

mutual

/-- **Reading keeps the meaning of a member.** -/
theorem holds_of_reads {key : String} {v : Json} {f : Formula} (a : α) :
    Reads (key, v) f → (f.Holds I a ↔ Json.MemberHolds I key v a)
  | .junction (c := c) hkey _ hitems => by
      rw [Json.MemberHolds.eq_def, Role.connective_of_ofKey hkey]
      cases c with
      | and => exact everyHolds_of_reads a hitems
      | or => exact someHolds_of_reads a hitems
      | nor => exact not_congr (someHolds_of_reads a hitems)
  | .negation hkey _ hmembers => by
      rw [Json.MemberHolds.eq_def, Role.negation_of_ofKey hkey]
      exact not_congr (allHold_of_reads a hmembers)
  | .within hkey _ hdown hmembers => by
      obtain ⟨hnone, hpath⟩ := Role.field_of_ofKey hkey
      rw [Json.MemberHolds.eq_def, hnone]
      dsimp only
      rw [isDownscope_eq_ok hdown, if_pos rfl, Path.named_of_ofText hpath]
      exact exists_congr fun b => and_congr_right fun _ => allHold_of_reads b hmembers
  | .operators hkey _ hdown hmembers => by
      obtain ⟨hnone, hpath⟩ := Role.field_of_ofKey hkey
      rw [Json.MemberHolds.eq_def, hnone]
      dsimp only
      rw [isDownscope_eq_ok hdown, if_neg Bool.false_ne_true, Path.named_of_ofText hpath]
      exact Json.forall_flatten_iff_operatorsHold hmembers fun _ _ _ =>
        Demand.forall_holds_of_reads
  | .all hkey htests => by
      obtain ⟨hnone, hpath⟩ := Role.field_of_ofKey hkey
      rw [Json.MemberHolds.eq_def, hnone, Path.named_of_ofText hpath]
      exact field_holds_of_ofOperator htests
  | .scalar hkey hv htests => by
      obtain ⟨hnone, hpath⟩ := Role.field_of_ofKey hkey
      rw [Json.MemberHolds.eq_def, hnone, Path.named_of_ofText hpath]
      cases v with
      | array items => cases hv
      | object members => cases hv
      | _ => exact field_holds_of_ofOperator htests

theorem allHold_of_reads {members : List (String × Json)} {fs : List Formula} (a : α) :
    ReadsAll members fs → (AllHold I fs a ↔ Json.MembersHold I members a)
  | .nil => by rw [AllHold, Json.MembersHold]
  | @ReadsAll.cons (key, v) _ _ _ hmember hmembers => by
      rw [AllHold, Json.MembersHold, holds_of_reads a hmember, allHold_of_reads a hmembers]

theorem everyHolds_of_reads {items : List Json} {bodies : List (List Formula)} (a : α) :
    ReadsItems items bodies → (EveryHolds I bodies a ↔ Json.AllHold I items a)
  | .nil => by rw [EveryHolds, Json.AllHold.eq_def]
  | .cons _ hmembers hitems => by
      rw [EveryHolds, Json.AllHold, allHold_of_reads a hmembers, everyHolds_of_reads a hitems]

theorem someHolds_of_reads {items : List Json} {bodies : List (List Formula)} (a : α) :
    ReadsItems items bodies → (SomeHolds I bodies a ↔ Json.SomeHolds I items a)
  | .nil => by rw [SomeHolds, Json.SomeHolds.eq_def]
  | .cons _ hmembers hitems => by
      rw [SomeHolds, Json.SomeHolds, allHold_of_reads a hmembers, someHolds_of_reads a hitems]

end

end Formula

end DocFilter
