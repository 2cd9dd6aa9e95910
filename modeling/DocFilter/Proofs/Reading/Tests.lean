import DocFilter.Filter.Formula
import Mathlib.Data.List.Forall2

/-!
# What reading accepts: tests

The readers of tests report the first error of a document. Where they report none, the tests are
determined by the document alone: the names in error messages and the place do not matter. The
relations of this file state what is accepted and with what result, one rule for each form of
member, and every accepted reading follows them.

## Main definitions

* `Json.operand`: the operand that a scalar document is under a modifier.
* `Operator.tests`: the tests of an operator with its operand.
* `Test.Reads`, `Demand.Reads`: the accepted members of the object of a field, and their results.

## Main results

* `Test.ofOperator_eq_ok`: an accepted operator has the tests `Operator.tests`.
* `Demand.reads_of_readAll`: the accepted members of an object follow the rules of `Demand.Reads`.
-/

namespace DocFilter

/-! ### Outcomes without an error -/

section Outcomes

variable {ε α β : Type}

theorem bind_eq_ok {x : Except ε α} {f : α → Except ε β} {b : β} :
    x >>= f = .ok b ↔ ∃ a, x = .ok a ∧ f a = .ok b := by
  cases x with
  | error e => exact ⟨nofun, nofun⟩
  | ok a => exact ⟨fun h => ⟨a, rfl, h⟩, fun ⟨_, ha, h⟩ => Except.ok.inj ha ▸ h⟩

theorem map_eq_ok {x : Except ε α} {f : α → β} {b : β} :
    x.map f = .ok b ↔ ∃ a, x = .ok a ∧ f a = b := by
  cases x with
  | error e => exact ⟨nofun, nofun⟩
  | ok a => simp [Except.map]

theorem mapError_eq_ok {δ : Type} {x : Except ε α} {f : ε → δ} {a : α} :
    x.mapError f = .ok a ↔ x = .ok a := by
  cases x <;> simp [Except.mapError]

theorem exists_of_toOption_map {x : Except ε α} {f : α → β} {b : β}
    (h : x.toOption.map f = some b) : ∃ a, x = .ok a ∧ f a = b := by
  cases x with
  | error e => cases h
  | ok a => exact ⟨a, rfl, Option.some.inj h⟩

theorem mapM_eq_ok {f : α → Except ε β} :
    {as : List α} → {bs : List β} →
      (as.mapM f = .ok bs ↔ List.Forall₂ (fun a b => f a = .ok b) as bs)
  | [], bs => by
      rw [List.mapM_nil, List.forall₂_nil_left_iff]
      exact ⟨fun h => (Except.ok.inj h).symm, fun h => congrArg Except.ok h.symm⟩
  | a :: as, bs => by
      rw [List.mapM_cons, List.forall₂_cons_left_iff]
      simp only [bind_eq_ok, mapM_eq_ok]
      constructor
      · rintro ⟨b, hb, bs', hbs, h⟩
        exact ⟨b, bs', hb, hbs, (Except.ok.inj h).symm⟩
      · rintro ⟨b, bs', hb, hbs, rfl⟩
        exact ⟨b, hb, bs', hbs, rfl⟩

/-- Every member on the right belongs to one on the left. -/
theorem exists_mem_of_forall₂ {R : α → β → Prop} {as : List α} {bs : List β}
    (h : List.Forall₂ R as bs) {b : β} (hb : b ∈ bs) : ∃ a ∈ as, R a b := by
  induction h with
  | nil => cases hb
  | cons hab _ ih =>
    rcases List.mem_cons.1 hb with rfl | hb
    · exact ⟨_, List.mem_cons_self, hab⟩
    · obtain ⟨a, ha, hab⟩ := ih hb
      exact ⟨a, List.mem_cons_of_mem _ ha, hab⟩

theorem exists_of_mem_mapM {f : α → Except ε β} {as : List α} {bs : List β}
    (h : as.mapM f = .ok bs) {b : β} (hb : b ∈ bs) : ∃ a ∈ as, f a = .ok b :=
  exists_mem_of_forall₂ (mapM_eq_ok.1 h) hb

/-- What every step of a fold preserves holds in the end. -/
theorem foldlM_preserves {f : β → α → Except ε β} {P : β → Prop}
    (hstep : ∀ b a b', P b → f b a = .ok b' → P b') :
    {as : List α} → {b b' : β} → P b → as.foldlM f b = .ok b' → P b'
  | [], _, _, hb, h => Except.ok.inj h ▸ hb
  | _ :: _, _, _, hb, h => by
      obtain ⟨c, hc, hrest⟩ := bind_eq_ok.1 h
      exact foldlM_preserves hstep (hstep _ _ _ hb hc) hrest

end Outcomes

/-! ### Operands -/

namespace Json

/-- The scalar that a document is. Arrays and objects count as null. -/
def scalar : Json → Scalar
  | bool b => .bool b
  | number n => .number n
  | string s => .string s
  | _ => .null

/-- The operand that a scalar document is under a modifier: under `$date` and `$timestamp` a scalar
other than null takes the normal form of a date or timestamp. -/
def operand (m : Option Modifier) (v : Json) : Operand :=
  let o := Operand.plain v.scalar
  if o.isNull then o
  else
    match m with
    | some .date => (o.toDate "").toOption.getD o
    | some .timestamp => (o.toTimestamp "").toOption.getD o
    | _ => o

/-- The items of an array. -/
def items : Json → List Json
  | array items => items
  | _ => []

end Json

@[simp] theorem Operand.isNull_plain (s : Scalar) : (plain s).isNull = decide (s = .null) := rfl

theorem Operand.ofJson_eq_ok {key : String} {v : Json} {o : Operand}
    (h : Operand.ofJson key v = .ok o) : o = .plain v.scalar := by
  cases v <;> simp only [Operand.ofJson, Except.ok.injEq, reduceCtorEq] at h <;>
    exact h.symm

theorem Operand.toTemporal_eq_ok {sense : Sense} {noun : String} {write : Moment → String}
    {key : String} {o o' : Operand} (h : o.toTemporal sense noun write key = .ok o') :
    (o.toTemporal sense noun write "").toOption.getD o = o' := by
  unfold Operand.toTemporal at h ⊢
  split at h
  · split at h
    · simpa [Except.toOption] using h
    · cases h
  · simpa [Except.toOption] using h
  · cases h

theorem Test.coerce_eq_ok {m : Option Modifier} {key : String} {v : Json} {o : Operand}
    (h : Test.coerce m key (.plain v.scalar) = .ok o) : o = v.operand m := by
  unfold Test.coerce at h
  unfold Json.operand
  split at h
  · next hnull => simpa only [hnull, ↓reduceIte] using (Except.ok.inj h).symm
  · next hnull =>
    simp only [hnull, Bool.false_eq_true, ↓reduceIte]
    cases m with
    | none => exact (Except.ok.inj h).symm
    | some m =>
      cases m with
      | date => exact (Operand.toTemporal_eq_ok h).symm
      | timestamp => exact (Operand.toTemporal_eq_ok h).symm
      | _ => exact (Except.ok.inj h).symm

/-! ### Tests of an operator -/

/-- The tests of an operator whose operand is `v`, under a modifier if there is one. -/
def Operator.tests (m : Option Modifier) (v : Json) : Operator → List Test
  | eq => [⟨m, .eq, false, [v.operand m]⟩]
  | ne => [⟨m, .eq, true, [v.operand m]⟩]
  | gt => [⟨m, .gt, false, [v.operand m]⟩]
  | gte => [⟨m, .gte, false, [v.operand m]⟩]
  | lt => [⟨m, .lt, false, [v.operand m]⟩]
  | lte => [⟨m, .lte, false, [v.operand m]⟩]
  | oneOf => [⟨m, .oneOf, false, v.items.map (Json.operand m)⟩]
  | noneOf => [⟨m, .oneOf, true, v.items.map (Json.operand m)⟩]
  | all => [⟨m, .all, false, v.items.map (Json.operand m)⟩]
  | present => [⟨m, .present, !(Operand.plain v.scalar).isTruthy, []⟩]
  | between =>
    match v.items with
    | [low, high] =>
      (if low.scalar = .null then [] else [⟨m, .gte, false, [low.operand m]⟩]) ++
        if high.scalar = .null then [] else [⟨m, .lte, false, [high.operand m]⟩]
    | _ => []
  | startsWith => [⟨m, .startsWith, false, [v.operand m]⟩]
  | regex => [⟨m, .regex, false, [v.operand m]⟩]
  | like => [⟨m, .like, false, [v.operand m]⟩]
  | hasSubstring => [⟨m, .hasSubstring, false, [v.operand m]⟩]

namespace Test

/-- The number of operands suits the relation: none for presence, some for a list, and one for
every other relation. -/
def Sized (t : Test) : Prop :=
  match t.relation with
  | .present => t.operands = []
  | .oneOf => t.operands ≠ []
  | .all => t.operands ≠ []
  | _ => t.operands.length = 1

variable {m : Option Modifier} {relation : Relation} {negated : Bool} {key : String} {v : Json}
  {tests : List Test}

theorem ofScalar_eq_ok (h : ofScalar m relation negated key v = .ok tests) :
    tests = [⟨m, relation, negated, [v.operand m]⟩] := by
  obtain ⟨o, ho, hrest⟩ := bind_eq_ok.1 h
  rw [Operand.ofJson_eq_ok ho] at hrest
  obtain ⟨o', ho', hrest⟩ := bind_eq_ok.1 hrest
  rw [← coerce_eq_ok ho']
  exact (Except.ok.inj hrest).symm

theorem ofString_eq_ok (h : ofString m relation key v = .ok tests) :
    tests = [⟨m, relation, false, [v.operand m]⟩] := by
  obtain ⟨o, ho, hrest⟩ := bind_eq_ok.1 h
  rw [Operand.ofJson_eq_ok ho] at hrest
  obtain ⟨s, -, hrest⟩ := bind_eq_ok.1 hrest
  obtain ⟨o', ho', hrest⟩ := bind_eq_ok.1 hrest
  rw [← coerce_eq_ok ho']
  exact (Except.ok.inj hrest).symm

theorem ofPresence_eq_ok (h : ofPresence m key v = .ok tests) :
    tests = [⟨m, .present, !(Operand.plain v.scalar).isTruthy, []⟩] := by
  obtain ⟨o, ho, hrest⟩ := bind_eq_ok.1 h
  rw [Operand.ofJson_eq_ok ho] at hrest
  exact (Except.ok.inj hrest).symm

theorem expectItems_eq_ok {items : List Json} (h : v.expectItems key = .ok items) :
    v = .array items := by
  cases v <;> simp only [Json.expectItems, Except.ok.injEq, reduceCtorEq] at h
  rw [h]

theorem mapM_operand {items : List Json} {plain coerced : List Operand}
    (hplain : items.mapM (Operand.ofJson key) = .ok plain)
    (hcoerced : plain.mapM (coerce m key) = .ok coerced) :
    coerced = items.map (Json.operand m) := by
  induction items generalizing plain coerced with
  | nil =>
    obtain rfl := List.forall₂_nil_left_iff.1 (mapM_eq_ok.1 hplain)
    exact List.forall₂_nil_left_iff.1 (mapM_eq_ok.1 hcoerced)
  | cons item items ih =>
    obtain ⟨o, os, ho, hos, rfl⟩ := List.forall₂_cons_left_iff.1 (mapM_eq_ok.1 hplain)
    obtain ⟨o', os', ho', hos', rfl⟩ := List.forall₂_cons_left_iff.1 (mapM_eq_ok.1 hcoerced)
    obtain rfl := Operand.ofJson_eq_ok ho
    rw [List.map_cons, ← ih (mapM_eq_ok.2 hos) (mapM_eq_ok.2 hos'), coerce_eq_ok ho']

theorem ofList_eq_ok (h : ofList m relation negated key v = .ok tests) :
    v.items ≠ [] ∧ tests = [⟨m, relation, negated, v.items.map (Json.operand m)⟩] := by
  obtain ⟨items, hitems, hrest⟩ := bind_eq_ok.1 h
  rw [expectItems_eq_ok hitems, Json.items]
  dsimp only at hrest
  split at hrest
  · cases hrest
  · next hne =>
    obtain ⟨plain, hplain, hrest⟩ := bind_eq_ok.1 hrest
    obtain ⟨coerced, hcoerced, hrest⟩ := bind_eq_ok.1 hrest
    refine ⟨by simpa using hne, ?_⟩
    rw [← mapM_operand hplain hcoerced]
    exact (Except.ok.inj hrest).symm

/-- A bound that is not null gives a test, and a null bound gives none. -/
theorem bound_eq_ok {rest : List Test → Except Error (List Test)}
    (h : (if (Operand.plain v.scalar).isNull then pure [] >>= rest else
      (coerce m key (.plain v.scalar)).map (fun o => [⟨m, relation, false, [o]⟩]) >>= rest) =
        .ok tests) :
    rest (if v.scalar = .null then [] else [⟨m, relation, false, [v.operand m]⟩]) = .ok tests := by
  by_cases hnull : v.scalar = .null
  · simpa [hnull] using h
  · rw [if_neg (by simpa using hnull)] at h
    obtain ⟨bound, hbound, h⟩ := bind_eq_ok.1 h
    obtain ⟨o, ho, rfl⟩ := map_eq_ok.1 hbound
    rwa [if_neg hnull, ← coerce_eq_ok ho]

theorem ofBounds_eq_ok (h : ofBounds m key v = .ok tests) :
    tests = Operator.between.tests m v ∧ tests ≠ [] := by
  obtain ⟨items, hitems, hrest⟩ := bind_eq_ok.1 h
  rw [expectItems_eq_ok hitems]
  split at hrest
  · next low high =>
    obtain ⟨o, ho, hrest⟩ := bind_eq_ok.1 hrest
    obtain ⟨o', ho', hrest⟩ := bind_eq_ok.1 hrest
    rw [Operand.ofJson_eq_ok ho, Operand.ofJson_eq_ok ho'] at hrest
    dsimp only at hrest
    split at hrest
    · cases hrest
    · next hnull =>
      have hlower := bound_eq_ok hrest
      have hupper := bound_eq_ok hlower
      obtain rfl := Except.ok.inj hupper
      refine ⟨rfl, ?_⟩
      simp only [Operand.isNull_plain, Bool.and_eq_true, decide_eq_true_eq, not_and] at hnull
      split_ifs with hlow hhigh
      · exact absurd hhigh (hnull hlow)
      all_goals simp
  · cases hrest

/-- **The tests of an accepted operator.** They depend on the operator, the modifier and the operand
only, there is one at least, and each has a suitable number of operands. -/
theorem ofOperator_eq_ok {op : Operator} (h : ofOperator m op key v = .ok tests) :
    tests = op.tests m v ∧ tests ≠ [] ∧ ∀ t ∈ tests, t.Sized := by
  cases op <;> simp only [ofOperator] at h
  case oneOf | noneOf | all =>
    obtain ⟨hne, rfl⟩ := ofList_eq_ok h
    simpa [Operator.tests, Sized] using hne
  case present =>
    obtain rfl := ofPresence_eq_ok h
    simp [Operator.tests, Sized]
  case between =>
    obtain ⟨rfl, hne⟩ := ofBounds_eq_ok h
    refine ⟨rfl, hne, ?_⟩
    intro t ht
    simp only [Operator.tests] at ht
    split at ht
    · rcases List.mem_append.1 ht with ht | ht <;> split_ifs at ht <;>
        simp_all [Sized]
    · cases ht
  case startsWith | regex | like | hasSubstring =>
    obtain rfl := ofString_eq_ok h
    simp [Operator.tests, Sized]
  all_goals
    obtain rfl := ofScalar_eq_ok h
    simp [Operator.tests, Sized]

/-- An accepted operator under the modifier `m`, as a member of the object of `m`. -/
def ReadsUnder (m : Modifier) (member : String × Json) (tests : List Test) : Prop :=
  ∃ op, Keyword.ofKey? member.1 = some (.operator op) ∧
    ofOperator (some m) op member.1 member.2 = .ok tests

/-- An accepted member with its tests: an operator, or a modifier with an object of operators or
with the scalar that the value has to equal. -/
inductive Reads : String × Json → List Test → Prop
  | operator {key : String} {v : Json} {tests : List Test} {op : Operator}
      (hkey : Keyword.ofKey? key = some (.operator op))
      (htests : ofOperator none op key v = .ok tests) : Reads (key, v) tests
  | modifier {key : String} {members : List (String × Json)} {tests : List (List Test)}
      {m : Modifier} (hkey : Keyword.ofKey? key = some (.modifier m)) (hne : members ≠ [])
      (htests : List.Forall₂ (ReadsUnder m) members tests) :
      Reads (key, .object members) tests.flatten
  | scalar {key : String} {v : Json} {tests : List Test} {m : Modifier}
      (hkey : Keyword.ofKey? key = some (.modifier m)) (hv : v.isScalar)
      (htests : ofOperator (some m) .eq key v = .ok tests) : Reads (key, v) tests

theorem readsUnder_of_readModified {place : Place} {m : Modifier}
    (h : readModified place m key v = .ok tests) : ReadsUnder m (key, v) tests := by
  unfold readModified at h
  split at h
  · next op hkey => exact ⟨op, hkey, h⟩
  · cases h

theorem reads_of_read {place : Place} (h : read place key v = .ok tests) :
    Reads (key, v) tests := by
  unfold read at h
  split at h
  · next op hkey => exact .operator hkey h
  · next m hkey =>
    split at h
    · cases h
    · next members hne =>
      obtain ⟨testss, htestss, rfl⟩ := map_eq_ok.1 h
      refine .modifier hkey hne ?_
      exact (mapM_eq_ok.1 htestss).imp fun _ _ => readsUnder_of_readModified
    · cases h
    · next hobject harray =>
      refine .scalar hkey ?_ h
      cases v <;> simp_all [Json.isScalar]
  · cases h

end Test

/-! ### Demands on a field -/

namespace Demand

/-- An accepted member of the object of a field with its demands. Under `$not` there are operators
and modifiers only. -/
inductive Reads : String × Json → List Demand → Prop
  | negation {key : String} {members : List (String × Json)} {tests : List (List Test)}
      (hkey : Keyword.ofKey? key = some .not) (hne : members ≠ [])
      (htests : List.Forall₂ Test.Reads members tests) :
      Reads (key, .object members) [.negation tests.flatten]
  | tests {member : String × Json} {tests : List Test} (htests : Test.Reads member tests) :
      Reads member (tests.map .test)

theorem expectSomeMembers_eq_ok {key : String} {v : Json} {members : List (String × Json)}
    (h : v.expectSomeMembers key = .ok members) : v = .object members ∧ members ≠ [] := by
  unfold Json.expectSomeMembers at h
  split at h
  · cases h
  · obtain rfl := Except.ok.inj h
    exact ⟨rfl, List.cons_ne_nil _ _⟩
  · cases h

theorem reads_of_read {scope : Scope} {field key : String} {v : Json} {demands : List Demand}
    (h : read scope field key v = .ok demands) : Reads (key, v) demands := by
  unfold read at h
  split at h
  · next hkey =>
    obtain ⟨members, hmembers, hrest⟩ := bind_eq_ok.1 h
    obtain ⟨tests, htests, hrest⟩ := bind_eq_ok.1 hrest
    obtain rfl := Except.ok.inj hrest
    obtain ⟨rfl, hne⟩ := expectSomeMembers_eq_ok hmembers
    exact .negation hkey hne ((mapM_eq_ok.1 htests).imp fun _ _ => Test.reads_of_read)
  · obtain ⟨tests, htests, rfl⟩ := map_eq_ok.1 h
    exact .tests (Test.reads_of_read htests)

theorem reads_of_readAll {scope : Scope} {field : String} {members : List (String × Json)}
    {demands : List Demand} (h : readAll scope field members = .ok demands) :
    ∃ parts, List.Forall₂ Reads members parts ∧ demands = parts.flatten := by
  obtain ⟨parts, hparts, rfl⟩ := map_eq_ok.1 h
  exact ⟨parts, (mapM_eq_ok.1 hparts).imp fun _ _ => reads_of_read, rfl⟩

end Demand

end DocFilter
