import DocFilter.Proofs.Reading.Tests

/-!
# The language of tests

Which operators, modifiers and operands the object of a field may hold. The grammar is given by
predicates on documents that do not mention the readers, and the readers accept exactly what
satisfies them.

## Main definitions

* `Json.IsOperand`: the documents that can be compared with.
* `Operator.Accepts`: the operands of an operator.
* `Json.IsTest`, `Json.IsDemand`: the members of the object of a field.

## Main results

* `Test.exists_ofOperator_iff`: the accepted operands of an operator.
* `Demand.exists_readAll_iff`: the accepted objects of a field.
-/

namespace DocFilter

/-! ### Accepted outcomes -/

section Outcomes

variable {ε α β : Type}

theorem exists_bind_eq_ok {x : Except ε α} {f : α → Except ε β} :
    (∃ b, x >>= f = .ok b) ↔ ∃ a, x = .ok a ∧ ∃ b, f a = .ok b := by
  simp only [bind_eq_ok]
  exact ⟨fun ⟨b, a, ha, hb⟩ => ⟨a, ha, b, hb⟩, fun ⟨a, ha, b, hb⟩ => ⟨b, a, ha, hb⟩⟩

theorem exists_map_eq_ok {x : Except ε α} {f : α → β} :
    (∃ b, x.map f = .ok b) ↔ ∃ a, x = .ok a := by
  simp only [map_eq_ok]
  exact ⟨fun ⟨_, a, ha, _⟩ => ⟨a, ha⟩, fun ⟨a, ha⟩ => ⟨_, a, ha, rfl⟩⟩

theorem exists_pure_eq_ok (a : α) : ∃ b, (pure a : Except ε α) = .ok b :=
  ⟨a, rfl⟩

/-- What an error is reported for is not accepted. -/
theorem exists_throw_eq_ok {c : Prop} [Decidable c] {e : ε} {f : α → Except ε β}
    {x : Except ε β} :
    (∃ b, (if c then throw e >>= f else x) = .ok b) ↔ ¬c ∧ ∃ b, x = .ok b := by
  by_cases hc : c
  · rw [if_pos hc]
    exact iff_of_false nofun fun h => h.1 hc
  · rw [if_neg hc]
    exact (and_iff_right hc).symm

/-- A list is accepted if every item is. -/
theorem exists_mapM_eq_ok {f : α → Except ε β} {as : List α} :
    (∃ bs, as.mapM f = .ok bs) ↔ ∀ a ∈ as, ∃ b, f a = .ok b := by
  simp only [mapM_eq_ok]
  induction as with
  | nil => exact ⟨fun _ => nofun, fun _ => ⟨[], .nil⟩⟩
  | cons a as ih =>
    rw [List.forall_mem_cons, ← ih]
    constructor
    · rintro ⟨bs, h⟩
      obtain ⟨b, bs', hb, hbs, -⟩ := List.forall₂_cons_left_iff.1 h
      exact ⟨⟨b, hb⟩, bs', hbs⟩
    · rintro ⟨⟨b, hb⟩, bs, hbs⟩
      exact ⟨b :: bs, .cons hb hbs⟩

end Outcomes

/-! ### Operands -/

namespace Json

/-- Whether a document is null, a number of milliseconds or the text of a moment. -/
def IsMoment : Json → Prop
  | null => True
  | number _ => True
  | string s => ∃ m, Moment.ofText? s = some m
  | _ => False

/-- Whether a document can be compared with under a modifier: it is a scalar, and a moment under
`$date` and `$timestamp`. -/
def IsOperand (m : Option Modifier) (v : Json) : Prop :=
  v.isScalar ∧ (m = some .date ∨ m = some .timestamp → v.IsMoment)

theorem isOperand_none_iff {v : Json} : v.IsOperand none ↔ v.isScalar :=
  and_iff_left nofun

theorem isOperand_null (m : Option Modifier) : null.IsOperand m :=
  ⟨rfl, fun _ => trivial⟩

theorem scalar_eq_null_iff {v : Json} (hv : v.isScalar) : v.scalar = .null ↔ v = .null := by
  cases v <;> simp_all [scalar, isScalar]

end Json

theorem Operand.ofJson_eq_ok_iff {key : String} {v : Json} {o : Operand} :
    Operand.ofJson key v = .ok o ↔ v.isScalar ∧ o = .plain v.scalar := by
  cases v <;> simp [Operand.ofJson, Json.isScalar, Json.scalar, eq_comm]

theorem Operand.exists_toTemporal_iff {sense : Sense} {noun : String} {write : Moment → String}
    {key : String} {v : Json} (hv : v.isScalar) (hnull : v.scalar ≠ .null) :
    (∃ o, (Operand.plain v.scalar).toTemporal sense noun write key = .ok o) ↔ v.IsMoment := by
  cases v with
  | null => exact absurd rfl hnull
  | bool b => exact iff_of_false nofun id
  | number n => exact iff_of_true ⟨_, rfl⟩ trivial
  | string s =>
    simp only [toTemporal, plain, Json.scalar, Json.IsMoment]
    cases Moment.ofText? s with
    | none => exact iff_of_false nofun nofun
    | some m => exact iff_of_true ⟨_, rfl⟩ ⟨m, rfl⟩
  | array => cases hv
  | object => cases hv

namespace Test

variable {m : Option Modifier} {relation : Relation} {negated : Bool} {key : String} {v : Json}

theorem exists_coerce_iff (key : String) (hv : v.isScalar) :
    (∃ o, coerce m key (.plain v.scalar) = .ok o) ↔ v.IsOperand m := by
  have hiff : v.IsOperand m ↔ (m = some .date ∨ m = some .timestamp → v.IsMoment) :=
    and_iff_right hv
  rw [hiff]
  unfold coerce
  by_cases hnull : v.scalar = .null
  · obtain rfl := (Json.scalar_eq_null_iff hv).1 hnull
    exact iff_of_true ⟨_, rfl⟩ fun _ => trivial
  · rw [if_neg (by simpa using hnull)]
    split
    · rw [Operand.toDate, Operand.exists_toTemporal_iff hv hnull]
      simp
    · rw [Operand.toTimestamp, Operand.exists_toTemporal_iff hv hnull]
      simp
    · next hdate htimestamp =>
      exact iff_of_true ⟨_, rfl⟩ fun h => (h.elim hdate htimestamp).elim

/-- The operand that is read from a scalar. -/
theorem exists_operand_iff (key : String) :
    (∃ o, Operand.ofJson key v = .ok o ∧ ∃ o', coerce m key o = .ok o') ↔ v.IsOperand m := by
  simp only [Operand.ofJson_eq_ok_iff]
  constructor
  · rintro ⟨o, ⟨hv, rfl⟩, ho⟩
    exact (exists_coerce_iff key hv).1 ho
  · exact fun h => ⟨_, ⟨h.1, rfl⟩, (exists_coerce_iff key h.1).2 h⟩

theorem exists_ofScalar_iff :
    (∃ tests, ofScalar m relation negated key v = .ok tests) ↔ v.IsOperand m := by
  simp only [ofScalar, exists_bind_eq_ok, exists_pure_eq_ok, and_true, exists_operand_iff]

theorem exists_ofString_iff :
    (∃ tests, ofString m relation key v = .ok tests) ↔
      (∃ s, v = .string s) ∧ v.IsOperand m := by
  have hstring : (∃ s, v.expectString key = .ok s) ↔ ∃ s, v = .string s := by
    cases v <;> simp [Json.expectString]
  simp only [ofString, exists_bind_eq_ok, exists_pure_eq_ok, and_true, ← hstring,
    ← exists_operand_iff key]
  constructor
  · rintro ⟨o, ho, s, hs, ho'⟩
    exact ⟨⟨s, hs⟩, o, ho, ho'⟩
  · rintro ⟨⟨s, hs⟩, o, ho, ho'⟩
    exact ⟨o, ho, s, hs, ho'⟩

theorem exists_ofPresence_iff : (∃ tests, ofPresence m key v = .ok tests) ↔ v.isScalar := by
  simp only [ofPresence, exists_bind_eq_ok, exists_pure_eq_ok, and_true, Operand.ofJson_eq_ok_iff]
  exact ⟨fun ⟨_, h⟩ => h.1, fun h => ⟨_, h, rfl⟩⟩

theorem expectItems_eq_ok_iff {items : List Json} :
    v.expectItems key = .ok items ↔ v = .array items :=
  ⟨expectItems_eq_ok, fun h => h ▸ rfl⟩

theorem mapM_ofJson_eq_ok_iff {items : List Json} {os : List Operand} :
    items.mapM (Operand.ofJson key) = .ok os ↔
      (∀ item ∈ items, item.isScalar) ∧ os = items.map fun item => .plain item.scalar := by
  simp only [mapM_eq_ok, Operand.ofJson_eq_ok_iff, List.forall₂_and_left]
  refine and_congr_right fun _ => ?_
  rw [← List.forall₂_eq_eq_eq, List.forall₂_map_right_iff]
  exact ⟨List.Forall₂.flip, List.Forall₂.flip⟩

theorem exists_ofList_iff :
    (∃ tests, ofList m relation negated key v = .ok tests) ↔
      ∃ items, v = .array items ∧ items ≠ [] ∧ ∀ item ∈ items, item.IsOperand m := by
  simp only [ofList, exists_bind_eq_ok, exists_throw_eq_ok, exists_pure_eq_ok, and_true,
    expectItems_eq_ok_iff, mapM_ofJson_eq_ok_iff, exists_mapM_eq_ok, List.isEmpty_iff]
  refine exists_congr fun items => and_congr_right fun _ => and_congr_right fun _ => ?_
  constructor
  · rintro ⟨os, ⟨hscalars, rfl⟩, hos⟩ item hitem
    exact (exists_coerce_iff key (hscalars item hitem)).1 (hos _ (List.mem_map_of_mem hitem))
  · intro hitems
    refine ⟨_, ⟨fun item hitem => (hitems item hitem).1, rfl⟩, ?_⟩
    rw [List.forall_mem_map]
    exact fun item hitem => (exists_coerce_iff key (hitems item hitem).1).2 (hitems item hitem)

/-- A bound is accepted together with what follows. -/
theorem exists_bound_iff {rest : List Test → Except Error (List Test)} (hv : v.isScalar) :
    (∃ tests, (if (Operand.plain v.scalar).isNull then pure [] >>= rest else
      (coerce m key (.plain v.scalar)).map (fun o => [⟨m, relation, false, [o]⟩]) >>= rest) =
        .ok tests) ↔
      v.IsOperand m ∧ ∃ tests, rest (if v.scalar = .null then []
        else [⟨m, relation, false, [v.operand m]⟩]) = .ok tests := by
  by_cases hnull : v.scalar = .null
  · obtain rfl := (Json.scalar_eq_null_iff hv).1 hnull
    exact (and_iff_right (Json.isOperand_null m)).symm
  · rw [if_neg (by simpa using hnull), if_neg hnull, ← exists_coerce_iff key hv]
    constructor
    · rintro ⟨tests, h⟩
      obtain ⟨bound, hbound, h⟩ := bind_eq_ok.1 h
      obtain ⟨o, ho, rfl⟩ := map_eq_ok.1 hbound
      refine ⟨⟨o, ho⟩, tests, ?_⟩
      rwa [← coerce_eq_ok ho]
    · rintro ⟨⟨o, ho⟩, tests, h⟩
      rw [← coerce_eq_ok ho] at h
      exact ⟨tests, bind_eq_ok.2 ⟨_, map_eq_ok.2 ⟨o, ho, rfl⟩, h⟩⟩

theorem exists_ofBounds_iff :
    (∃ tests, ofBounds m key v = .ok tests) ↔
      ∃ low high, v = .array [low, high] ∧ ¬(low = .null ∧ high = .null) ∧
        low.IsOperand m ∧ high.IsOperand m := by
  have hboth {low high : Json} (hlow : low.isScalar) (hhigh : high.isScalar) :
      ((Operand.plain low.scalar).isNull && (Operand.plain high.scalar).isNull) = true ↔
        low = .null ∧ high = .null := by
    simp [Json.scalar_eq_null_iff hlow, Json.scalar_eq_null_iff hhigh]
  simp only [ofBounds, exists_bind_eq_ok, expectItems_eq_ok_iff]
  constructor
  · rintro ⟨items, rfl, h⟩
    split at h
    · next low high =>
      simp only [exists_bind_eq_ok, Operand.ofJson_eq_ok_iff] at h
      obtain ⟨_, ⟨hlow, rfl⟩, _, ⟨hhigh, rfl⟩, h⟩ := h
      rw [exists_throw_eq_ok, hboth hlow hhigh, exists_bound_iff hlow, exists_bound_iff hhigh] at h
      exact ⟨low, high, rfl, h.1, h.2.1, h.2.2.1⟩
    · obtain ⟨tests, h⟩ := h
      cases h
  · rintro ⟨low, high, rfl, hnull, hlow, hhigh⟩
    refine ⟨[low, high], rfl, ?_⟩
    simp only [exists_bind_eq_ok, Operand.ofJson_eq_ok_iff]
    refine ⟨_, ⟨hlow.1, rfl⟩, _, ⟨hhigh.1, rfl⟩, ?_⟩
    rw [exists_throw_eq_ok, hboth hlow.1 hhigh.1, exists_bound_iff hlow.1, exists_bound_iff hhigh.1]
    exact ⟨hnull, hlow, hhigh, _, rfl⟩

end Test

/-! ### Operators -/

/-- The operands of an operator under a modifier. -/
def Operator.Accepts (m : Option Modifier) (v : Json) (op : Operator) : Prop :=
  match op with
  | .eq | .ne | .gt | .gte | .lt | .lte => v.IsOperand m
  | .oneOf | .noneOf | .all =>
    ∃ items, v = .array items ∧ items ≠ [] ∧ ∀ item ∈ items, item.IsOperand m
  | .present => v.isScalar
  | .between =>
    ∃ low high, v = .array [low, high] ∧ ¬(low = .null ∧ high = .null) ∧
      low.IsOperand m ∧ high.IsOperand m
  | .startsWith | .regex | .like | .hasSubstring => (∃ s, v = .string s) ∧ v.IsOperand m

/-- **The accepted operands of an operator.** -/
theorem Test.exists_ofOperator_iff {m : Option Modifier} {op : Operator} {key : String} {v : Json} :
    (∃ tests, ofOperator m op key v = .ok tests) ↔ op.Accepts m v := by
  cases op with
  | oneOf | noneOf | all => exact exists_ofList_iff
  | present => exact exists_ofPresence_iff
  | between => exact exists_ofBounds_iff
  | startsWith | regex | like | hasSubstring => exact exists_ofString_iff
  | _ => exact exists_ofScalar_iff

/-! ### The object of a field -/

namespace Json

/-- An operator with its operand, under a modifier if there is one. -/
def IsOperator (m : Option Modifier) (key : String) (v : Json) : Prop :=
  ∃ op, Keyword.ofKey? key = some (.operator op) ∧ op.Accepts m v

/-- An operator with its operand, or a modifier with some operators or the scalar that the value has
to equal. -/
def IsTest (key : String) (v : Json) : Prop :=
  match Keyword.ofKey? key, v with
  | some (.modifier m), object members =>
    members ≠ [] ∧ ∀ member ∈ members, IsOperator (some m) member.1 member.2
  | some (.modifier m), v => v.IsOperand (some m)
  | _, v => IsOperator none key v

/-- A test, or `$not` with some tests. -/
def IsDemand (key : String) (v : Json) : Prop :=
  match Keyword.ofKey? key, v with
  | some .not, object members => members ≠ [] ∧ ∀ member ∈ members, IsTest member.1 member.2
  | _, v => IsTest key v

end Json

namespace Test

theorem exists_readModified_iff {place : Place} {m : Modifier} {key : String} {v : Json} :
    (∃ tests, readModified place m key v = .ok tests) ↔ v.IsOperator (some m) key := by
  unfold readModified Json.IsOperator
  split
  · next op hkey =>
    rw [exists_ofOperator_iff]
    simp [hkey]
  · next hkey => exact iff_of_false nofun fun ⟨op, hop, _⟩ => hkey op hop

theorem exists_read_iff {place : Place} {key : String} {v : Json} :
    (∃ tests, read place key v = .ok tests) ↔ v.IsTest key := by
  unfold read Json.IsTest
  split
  · next op hkey =>
    rw [exists_ofOperator_iff]
    simp [hkey, Json.IsOperator]
  · next m hkey =>
    simp only [hkey]
    cases v with
    | object members =>
      cases members with
      | nil => exact iff_of_false nofun fun h => h.1 rfl
      | cons member members =>
        simp only [exists_map_eq_ok, exists_mapM_eq_ok, exists_readModified_iff]
        exact (and_iff_right (List.cons_ne_nil _ _)).symm
    | array items => exact iff_of_false nofun fun h => nomatch h.1
    | _ => exact exists_ofOperator_iff
  · next hoperator hmodifier =>
    refine iff_of_false nofun ?_
    split
    · next m _ hkey => exact absurd hkey (hmodifier m)
    · next m hkey _ => exact absurd hkey (hmodifier m)
    · exact fun ⟨op, hop, _⟩ => hoperator op hop

end Test

namespace Demand

theorem exists_read_iff {scope : Scope} {field key : String} {v : Json} :
    (∃ demands, read scope field key v = .ok demands) ↔ v.IsDemand key := by
  unfold read Json.IsDemand
  split
  · next hkey =>
    simp only [hkey, exists_bind_eq_ok, exists_pure_eq_ok, and_true, exists_mapM_eq_ok,
      Test.exists_read_iff]
    cases v with
    | object members =>
      cases members with
      | nil => exact iff_of_false nofun fun h => h.1 rfl
      | cons member members =>
        constructor
        · rintro ⟨_, heq, h⟩
          obtain rfl := Except.ok.inj heq
          exact ⟨List.cons_ne_nil _ _, h⟩
        · exact fun h => ⟨_, rfl, h.2⟩
    | _ => exact iff_of_false nofun (by simp [Json.IsTest, Json.IsOperator, hkey])
  · next hkey =>
    rw [exists_map_eq_ok, Test.exists_read_iff]
    split
    · next h => exact absurd h hkey
    · rfl

/-- **The accepted members of the object of a field.** -/
theorem exists_readAll_iff {scope : Scope} {field : String} {members : List (String × Json)} :
    (∃ demands, readAll scope field members = .ok demands) ↔
      ∀ member ∈ members, member.2.IsDemand member.1 := by
  simp only [readAll, exists_map_eq_ok, exists_mapM_eq_ok, exists_read_iff]

end Demand

end DocFilter
