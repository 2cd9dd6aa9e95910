import DocFilter.Proofs.Acceptance.Tests
import DocFilter.Proofs.Reading.Documents

/-!
# The language of filters

Which documents are filters. The grammar is given by recursion on the document: the members of a
filter and the scopes in which they may stand, the objects and arrays under connectives, and the
members of a whole document. The readers of keys, comparisons, spatial and text operators and sort
orders are taken as they are; of all other readers the grammar is independent. A document is
accepted exactly if it satisfies the grammar.

## Main definitions

* `Json.IsMember`: the members of a filter.
* `Json.IsBody`: the members of a document that restrict.
* `Json.IsFilter`: the documents that are filters.

## Main results

* `Formula.exists_read_iff`: the accepted members of a part of a filter.
* `Clause.exists_read_iff`: the accepted members of a whole document.
* `Filter.exists_ofJson_iff`: the accepted documents.
-/

namespace DocFilter

/-! ### The grammar -/

namespace Json

/-- A spatial or text operator for the field at `path`. -/
def IsSide (path : Path) (key : String) (operand : Json) : Prop :=
  match Keyword.ofKey? key with
  | some (.spatial relation) => ∃ s, Spatial.read path relation operand = .ok s
  | some .contains => ∃ t, TextSearch.read path operand = .ok t
  | _ => False

/-- The members of an object of operators: only demands or, at the top of a document, a spatial or
text operator alone. -/
def AreOperators (scope : Scope) (path : Path) (members : List (String × Json)) : Prop :=
  (∀ member ∈ members, member.2.IsDemand member.1) ∨
    scope = .top ∧ ∃ key operand, members = [(key, operand)] ∧ operand.IsSide path key

/-- Whether all keys are connectives or names of fields. -/
def NameFields (members : List (String × Json)) : Prop :=
  ∀ member ∈ members, isFieldKey member.1 ∧ isUnknownKey member.1 = false

mutual

/-- A member of a filter: a connective with some filters, `$not` with a filter, at the top of a
document keys or comparisons, or the name of a field with a scalar, some scalars, a filter for its
elements or operators. -/
def IsMember (scope : Scope) (key : String) (v : Json) : Prop :=
  match Keyword.ofKey? key, v with
  | some .and, array items => items ≠ [] ∧ AreFilters items
  | some .or, array items => items ≠ [] ∧ AreFilters items
  | some .nor, array items => items ≠ [] ∧ AreFilters items
  | some .not, object members => members ≠ [] ∧ AreMembers members
  | some .id, v => scope = .top ∧ ∃ ks, readKeys v = .ok ks
  | some .sqlJson, v => scope = .top ∧ ∃ cs, Comparison.readAll v = .ok cs
  | none, object members =>
    isDollarKey key = false ∧ ∃ path, Path.ofText key = .ok path ∧ members ≠ [] ∧
      (NameFields members ∧ AreMembers members ∨ AreOperators scope path members)
  | none, array items =>
    isDollarKey key = false ∧ ∃ path, Path.ofText key = .ok path ∧ items ≠ [] ∧
      ∀ item ∈ items, item.isScalar
  | none, _ => isDollarKey key = false ∧ ∃ path, Path.ofText key = .ok path
  | _, _ => False

/-- The members of a filter that is part of another. -/
def AreMembers : List (String × Json) → Prop
  | [] => True
  | (key, v) :: members => IsMember .nested key v ∧ AreMembers members

/-- The filters under a connective. -/
def AreFilters : List Json → Prop
  | [] => True
  | object members :: items => members ≠ [] ∧ AreMembers members ∧ AreFilters items
  | _ :: _ => False

end

/-- The members that restrict documents: keys and comparisons are given once at most. -/
def IsBody (members : List (String × Json)) : Prop :=
  (∀ member ∈ members, member.2.IsMember .top member.1) ∧
    Filter.countKey "$id" members ≤ 1 ∧ Filter.countKey "$sqlJson" members ≤ 1

/-- Whether a member of a document stands beside those that restrict: a sort order, or a member that
is passed over. -/
def isBeside (key : String) : Bool :=
  match Keyword.ofKey? key with
  | some .orderBy => true
  | some .envelope => true
  | _ => false

/-- **The documents that are filters.** There is one sort order at most, and the members that
restrict stand in the document or together under `$query`. -/
def IsFilter : Json → Prop
  | object members =>
    Filter.countKey "$orderby" members ≤ 1 ∧
      (∀ v, ("$orderby", v) ∈ members → ∃ spec, SortSpec.read v = .ok spec) ∧
      (Filter.countKey "$query" members = 0 ∧
          IsBody (members.filter fun (key, _) => !isBeside key) ∨
        Filter.countKey "$query" members = 1 ∧
          (∀ member ∈ members, member.1 = "$query" ∨ isBeside member.1) ∧
          ∀ v, ("$query", v) ∈ members → ∃ body, v = object body ∧ IsBody body)
  | _ => False

end Json

/-! ### Formulas -/

/-- A key has a role if it is a connective, `$not` or the name of a field. -/
theorem Role.exists_ofKey_iff {key : String} {P : Role → Prop} :
    (∃ role, Role.ofKey key = .ok role ∧ P role) ↔
      match Keyword.ofKey? key with
      | some .and => P (.connective .and)
      | some .or => P (.connective .or)
      | some .nor => P (.connective .nor)
      | some .not => P .negation
      | none => isDollarKey key = false ∧ ∃ path, Path.ofText key = .ok path ∧ P (.field path)
      | _ => False := by
  unfold Role.ofKey
  cases Keyword.ofKey? key with
  | none =>
    dsimp only
    split_ifs with hdollar
    · simp [hdollar]
    · simp only [map_eq_ok, hdollar, true_and]
      constructor
      · rintro ⟨_, ⟨path, hpath, rfl⟩, h⟩
        exact ⟨path, hpath, h⟩
      · rintro ⟨path, hpath, h⟩
        exact ⟨_, ⟨path, hpath, rfl⟩, h⟩
  | some k => cases k <;> simp

/-- The object of a field names fields if all its keys do. -/
theorem isDownscope_eq_true_iff {field : String} {members : List (String × Json)} :
    isDownscope field members = .ok true ↔ Json.NameFields members := by
  unfold isDownscope Json.NameFields
  split
  · next key v hfind =>
    have hunknown := List.find?_some hfind
    refine iff_of_false nofun fun h => ?_
    exact absurd (h _ (List.mem_of_find?_eq_some hfind)).2 (Bool.not_eq_false _ ▸ hunknown)
  · next hnone =>
    have hknown : ∀ member ∈ members, isUnknownKey member.1 = false := fun member hmember =>
      Bool.eq_false_iff.2 (List.find?_eq_none.1 hnone member hmember)
    split_ifs with hall hany
    · exact iff_of_true rfl fun member hmember =>
        ⟨List.all_eq_true.1 hall member hmember, hknown member hmember⟩
    all_goals exact iff_of_false nofun fun h => hall (List.all_eq_true.2 fun m hm => (h m hm).1)

theorem Json.IsDemand.isFieldKey_eq_false {key : String} {v : Json} (h : v.IsDemand key) :
    isFieldKey key = false ∧ isUnknownKey key = false := by
  have hkey : ∃ k, Keyword.ofKey? key = some k ∧ k.isConnective = false := by
    unfold IsDemand at h
    split at h
    · exact ⟨_, by assumption, rfl⟩
    · unfold IsTest at h
      split at h
      · exact ⟨_, by assumption, rfl⟩
      · exact ⟨_, by assumption, rfl⟩
      · obtain ⟨op, hop, -⟩ := h
        exact ⟨_, hop, rfl⟩
  obtain ⟨k, hk, hconnective⟩ := hkey
  simp [isFieldKey, isUnknownKey, hk, hconnective]

/-- An object of operators names no fields. -/
theorem isDownscope_eq_false_of_forall {field : String} {members : List (String × Json)}
    (hne : members ≠ []) (h : ∀ member ∈ members, member.2.IsDemand member.1) :
    isDownscope field members = .ok false := by
  have hfind : (members.find? fun (key, _) => isUnknownKey key) = none :=
    List.find?_eq_none.2 fun member hmember => by
      simp [(h member hmember).isFieldKey_eq_false.2]
  have hfields : ∀ member ∈ members, isFieldKey member.1 = false := fun member hmember =>
    (h member hmember).isFieldKey_eq_false.1
  obtain ⟨member, members, rfl⟩ := List.exists_cons_of_ne_nil hne
  unfold isDownscope
  rw [hfind]
  dsimp only
  rw [if_neg, if_neg]
  · simpa using hfields
  · simp [hfields member List.mem_cons_self]

namespace Formula

/-- The accepted objects of a field in a part of a filter. -/
theorem exists_readObject_iff {scope : Scope} {key : String} {path : Path}
    {members : List (String × Json)} (hne : members ≠ [])
    (hmembers : (∃ fs, readMembers members = .ok fs) ↔ Json.AreMembers members) :
    (∃ f, (do
      if ← isDownscope key members then return within path (← readMembers members)
      else return field path (← Demand.readAll scope key members)) = .ok f) ↔
      Json.NameFields members ∧ Json.AreMembers members ∨
        Json.AreOperators .nested path members := by
  have hoperators : Json.AreOperators .nested path members ↔
      ∀ member ∈ members, member.2.IsDemand member.1 :=
    or_iff_left fun h => nomatch h.1
  rw [hoperators, exists_bind_eq_ok]
  constructor
  · rintro ⟨down, hdown, h⟩
    cases down with
    | true =>
      rw [if_pos rfl, exists_bind_eq_ok] at h
      obtain ⟨fs, hfs, -⟩ := h
      exact .inl ⟨isDownscope_eq_true_iff.1 hdown, hmembers.1 ⟨fs, hfs⟩⟩
    | false =>
      rw [if_neg Bool.false_ne_true, exists_bind_eq_ok] at h
      obtain ⟨demands, hdemands, -⟩ := h
      exact .inr (Demand.exists_readAll_iff.1 ⟨demands, hdemands⟩)
  · rintro (⟨hnames, h⟩ | h)
    · obtain ⟨fs, hfs⟩ := hmembers.2 h
      refine ⟨true, isDownscope_eq_true_iff.2 hnames, ?_⟩
      rw [if_pos rfl, exists_bind_eq_ok]
      exact ⟨fs, hfs, _, rfl⟩
    · -- demands name no fields, so that the object is read as operators
      obtain ⟨demands, hdemands⟩ := Demand.exists_readAll_iff.2 h
      refine ⟨false, isDownscope_eq_false_of_forall hne h, ?_⟩
      rw [if_neg Bool.false_ne_true, exists_bind_eq_ok]
      exact ⟨demands, hdemands, _, rfl⟩

/-- A scalar can only be what a field has to equal. -/
theorem exists_readScalar_iff (scope : Scope) (key : String) {v : Json} (hv : v.isScalar) :
    (∃ f, read scope key v = .ok f) ↔ v.IsMember .nested key := by
  have htest : ∃ tests, Test.ofOperator none .eq key v = .ok tests :=
    Test.exists_ofOperator_iff.2 (Json.isOperand_none_iff.2 hv)
  cases v with
  | array items => cases hv
  | object members => cases hv
  | _ =>
    rw [read.eq_def]
    dsimp only
    rw [exists_bind_eq_ok, Role.exists_ofKey_iff, Json.IsMember.eq_def]
    cases hkey : Keyword.ofKey? key with
    | none =>
      dsimp only
      simp only [exists_bind_eq_ok, exists_pure_eq_ok, and_true, htest]
    | some k =>
      cases k with
      | and | or | nor | not => exact iff_of_false nofun id
      | id | sqlJson => exact iff_of_false id nofun
      | _ => exact Iff.rfl

mutual

/-- **The accepted members of a filter that is part of another.** -/
theorem exists_read_iff (scope : Scope) (key : String) :
    (v : Json) → ((∃ f, read scope key v = .ok f) ↔ v.IsMember .nested key)
  | .array items => by
      -- the role of the key and the grammar branch on the keyword alike
      rw [read, exists_bind_eq_ok, Role.exists_ofKey_iff, Json.IsMember.eq_def]
      cases hkey : Keyword.ofKey? key with
      | none =>
        refine and_congr_right fun _ => exists_congr fun path => and_congr_right fun _ => ?_
        dsimp only
        simp only [exists_bind_eq_ok, exists_pure_eq_ok, and_true, Test.exists_ofOperator_iff,
          Operator.Accepts, Json.isOperand_none_iff, Json.array.injEq, exists_eq_left']
      | some k =>
        cases k with
        | and | or | nor =>
          dsimp only
          simp only [exists_throw_eq_ok, exists_bind_eq_ok, exists_pure_eq_ok, and_true,
            List.isEmpty_iff, exists_readItems_iff key items]
        | not => exact iff_of_false nofun id
        | id | sqlJson => exact iff_of_false id nofun
        | _ => exact Iff.rfl
  | .object members => by
      rw [read, exists_bind_eq_ok, Role.exists_ofKey_iff, Json.IsMember.eq_def]
      cases hkey : Keyword.ofKey? key with
      | none =>
        refine and_congr_right fun _ => exists_congr fun path => and_congr_right fun _ => ?_
        dsimp only
        rw [exists_throw_eq_ok, List.isEmpty_iff]
        exact and_congr_right fun hne => exists_readObject_iff hne (exists_readMembers_iff members)
      | some k =>
        cases k with
        | and | or | nor => exact iff_of_false nofun id
        | not =>
          dsimp only
          simp only [exists_throw_eq_ok, exists_bind_eq_ok, exists_pure_eq_ok, and_true,
            List.isEmpty_iff, exists_readMembers_iff members]
        | id | sqlJson => exact iff_of_false id nofun
        | _ => exact Iff.rfl
  | .null => exists_readScalar_iff scope key rfl
  | .bool _ => exists_readScalar_iff scope key rfl
  | .number _ => exists_readScalar_iff scope key rfl
  | .string _ => exists_readScalar_iff scope key rfl

theorem exists_readMembers_iff :
    (members : List (String × Json)) →
      ((∃ fs, readMembers members = .ok fs) ↔ Json.AreMembers members)
  | [] => iff_of_true ⟨_, rfl⟩ (by rw [Json.AreMembers]; trivial)
  | (key, v) :: members => by
      rw [readMembers, Json.AreMembers, ← exists_read_iff .nested key v,
        ← exists_readMembers_iff members]
      simp only [exists_bind_eq_ok, exists_pure_eq_ok, and_true, exists_and_right]

theorem exists_readItems_iff (key : String) :
    (items : List Json) → ((∃ bodies, readItems key items = .ok bodies) ↔ Json.AreFilters items)
  | [] => iff_of_true ⟨_, rfl⟩ (by rw [Json.AreFilters]; trivial)
  | .object members :: items => by
      rw [readItems, Json.AreFilters, ← exists_readMembers_iff members,
        ← exists_readItems_iff key items]
      simp only [exists_throw_eq_ok, exists_bind_eq_ok, exists_pure_eq_ok, and_true,
        exists_and_right, List.isEmpty_iff, ne_eq]
  | .null :: _ => iff_of_false nofun (by rw [Json.AreFilters] <;> nofun)
  | .bool _ :: _ => iff_of_false nofun (by rw [Json.AreFilters] <;> nofun)
  | .number _ :: _ => iff_of_false nofun (by rw [Json.AreFilters] <;> nofun)
  | .string _ :: _ => iff_of_false nofun (by rw [Json.AreFilters] <;> nofun)
  | .array _ :: _ => iff_of_false nofun (by rw [Json.AreFilters] <;> nofun)

end

end Formula

/-! ### Members of a document -/

/-- A keyword that has one key only is that key's. -/
theorem Keyword.key_of_ofKey? (name : String) {key : String} {k : Keyword}
    (h : Keyword.ofKey? key = some k)
    (hunique : ∀ entry ∈ Keyword.table, entry.2 = k → entry.1 = name) : key = name :=
  hunique _ (Keyword.mem_table_of_ofKey? h) rfl

/-- Whether a keyword makes a restriction beside the formulas. -/
def Keyword.isSide : Keyword → Bool
  | contains => true
  | spatial _ => true
  | _ => false

namespace Json

/-- At the top of a document, a field may have a spatial or text operator besides. -/
theorem isMember_top_iff {key : String} {v : Json} (hkey : Keyword.ofKey? key = none)
    (hdollar : isDollarKey key = false) :
    v.IsMember .top key ↔ v.IsMember .nested key ∨
      ∃ path operator operand, Path.ofText key = .ok path ∧ v = object [(operator, operand)] ∧
        operand.IsSide path operator := by
  rw [IsMember.eq_def, IsMember.eq_def .nested, hkey]
  cases v with
  | object members =>
    simp only [hdollar, true_and, AreOperators, reduceCtorEq, false_and, or_false, object.injEq]
    constructor
    · rintro ⟨path, hpath, hne, hfields | hdemands | ⟨operator, operand, hmembers, hside⟩⟩
      · exact .inl ⟨path, hpath, hne, .inl hfields⟩
      · exact .inl ⟨path, hpath, hne, .inr hdemands⟩
      · exact .inr ⟨path, operator, operand, hpath, hmembers, hside⟩
    · rintro (⟨path, hpath, hne, hfields | hdemands⟩ | ⟨path, operator, operand, hpath, rfl, hside⟩)
      · exact ⟨path, hpath, hne, .inl hfields⟩
      · exact ⟨path, hpath, hne, .inr (.inl hdemands)⟩
      · exact ⟨path, hpath, List.cons_ne_nil _ _, .inr (.inr ⟨operator, operand, rfl, hside⟩)⟩
  | _ => simp

/-- Apart from keys and comparisons, the scope does not matter for a keyword. -/
theorem isMember_top_iff_nested {key : String} {v : Json} {k : Keyword}
    (hkey : Keyword.ofKey? key = some k) (hid : k ≠ .id) (hsqlJson : k ≠ .sqlJson) :
    v.IsMember .top key ↔ v.IsMember .nested key := by
  rw [IsMember.eq_def, IsMember.eq_def .nested, hkey]
  cases k with
  | and | or | nor | not => cases v <;> rfl
  | id => exact absurd rfl hid
  | sqlJson => exact absurd rfl hsqlJson
  | _ => rfl

/-- In a part of a filter, a field has no spatial or text operator. -/
theorem not_isMember_nested {key operator : String} {operand : Json} {k : Keyword}
    (hkey : Keyword.ofKey? key = none) (hk : Keyword.ofKey? operator = some k)
    (hside : k.isSide = true) : ¬IsMember .nested key (object [(operator, operand)]) := by
  have hfield : isFieldKey operator = false := by
    cases k <;> simp_all [isFieldKey, Keyword.isSide, Keyword.isConnective]
  have hdemand : ¬operand.IsDemand operator := by
    cases k <;> simp_all [IsDemand, IsTest, IsOperator, Keyword.isSide]
  rw [IsMember.eq_def, hkey]
  simp [NameFields, AreOperators, hfield, hdemand]

end Json

namespace Clause

theorem exists_once_iff {earlier : List String} {key : String} :
    (∃ u, once earlier key = .ok u) ↔ key ∉ earlier := by
  unfold once
  split_ifs with h
  · exact iff_of_false nofun fun hnot => hnot h
  · exact iff_of_true ⟨_, rfl⟩ h

/-- A spatial or text operator alone makes a restriction beside the formulas. -/
theorem exists_of_readSide? {key : String} {v : Json} {outcome : Except Error Clause}
    (h : readSide? key v = some outcome) :
    ∃ operator operand k, v = .object [(operator, operand)] ∧
      Keyword.ofKey? operator = some k ∧ k.isSide = true ∧
      ((∃ clause, outcome = .ok clause) ↔
        ∃ path, Path.ofText key = .ok path ∧ operand.IsSide path operator) := by
  unfold readSide? at h
  split at h
  · next operator operand =>
    split at h
    · next relation hoperator =>
      obtain rfl := Option.some.inj h
      refine ⟨operator, operand, _, rfl, hoperator, rfl, ?_⟩
      simp only [exists_bind_eq_ok, exists_pure_eq_ok, and_true, Json.IsSide, hoperator]
    · next hoperator =>
      obtain rfl := Option.some.inj h
      refine ⟨operator, operand, _, rfl, hoperator, rfl, ?_⟩
      simp only [exists_bind_eq_ok, exists_pure_eq_ok, and_true, Json.IsSide, hoperator]
    · cases h
  · cases h

theorem readSide?_ne_none {key operator : String} {operand : Json} {path : Path}
    (h : operand.IsSide path operator) : readSide? key (.object [(operator, operand)]) ≠ none := by
  unfold Json.IsSide at h
  split at h
  · next hoperator => simp [readSide?, hoperator]
  · next hoperator => simp [readSide?, hoperator]
  · exact h.elim

/-- The members that restrict and may be given once. -/
def onceKeys : List String := ["$id", "$sqlJson"]

theorem not_mem_onceKeys {key : String} {keyword : Option Keyword}
    (hkey : Keyword.ofKey? key = keyword) (hid : keyword ≠ some .id)
    (hsqlJson : keyword ≠ some .sqlJson) : key ∉ onceKeys := by
  simp only [onceKeys, List.mem_cons, List.not_mem_nil, or_false]
  rintro (rfl | rfl)
  · exact hid hkey.symm
  · exact hsqlJson hkey.symm

/-- **The accepted members of a document that restrict.** -/
theorem exists_read_iff {earlier : List String} {key : String} {v : Json} :
    (∃ clause, read earlier key v = .ok clause) ↔
      v.IsMember .top key ∧ (key ∈ onceKeys → key ∉ earlier) := by
  unfold read
  cases hkey : Keyword.ofKey? key with
  | none =>
    have hother : key ∉ onceKeys := not_mem_onceKeys hkey nofun nofun
    simp only [hother, false_imp_iff, and_true]
    split_ifs with hdollar
    · refine iff_of_false nofun ?_
      rw [Json.IsMember.eq_def, hkey]
      cases v <;> simp [hdollar]
    · rw [Bool.not_eq_true] at hdollar
      rw [Json.isMember_top_iff hkey hdollar]
      -- what `readSide?` takes is never a formula, so each case refutes one disjunct
      cases hside : readSide? key v with
      | none =>
        rw [Option.getD_none, exists_map_eq_ok, Formula.exists_read_iff]
        refine (or_iff_left ?_).symm
        rintro ⟨path, operator, operand, -, rfl, h⟩
        exact readSide?_ne_none h hside
      | some outcome =>
        obtain ⟨operator, operand, k, rfl, hk, hkside, hiff⟩ := exists_of_readSide? hside
        rw [Option.getD_some, hiff, or_iff_right (Json.not_isMember_nested hkey hk hkside)]
        simp
  | some k =>
    cases k with
    | id =>
      obtain rfl := Keyword.key_of_ofKey? "$id" hkey (by decide)
      rw [Json.IsMember.eq_def, hkey]
      simp only [exists_bind_eq_ok, exists_pure_eq_ok, and_true, exists_and_right,
        exists_once_iff]
      simp [onceKeys, and_comm]
    | sqlJson =>
      obtain rfl := Keyword.key_of_ofKey? "$sqlJson" hkey (by decide)
      rw [Json.IsMember.eq_def, hkey]
      simp only [exists_bind_eq_ok, exists_pure_eq_ok, and_true, exists_and_right,
        exists_once_iff]
      simp [onceKeys, and_comm]
    | _ =>
      have hother : key ∉ onceKeys := not_mem_onceKeys hkey nofun nofun
      simp only [hother, false_imp_iff, and_true, exists_map_eq_ok, Formula.exists_read_iff]
      exact (Json.isMember_top_iff_nested hkey nofun nofun).symm

/-- Behind the keys `earlier`, the members give a key for the first time and once at most. -/
def AtMostOnce (earlier : List String) (key : String) (members : List (String × Json)) : Prop :=
  Filter.countKey key members + (if key ∈ earlier then 1 else 0) ≤ 1

theorem atMostOnce_nil (earlier : List String) (key : String) : AtMostOnce earlier key [] := by
  rw [AtMostOnce, Filter.countKey, List.countP_nil, Nat.zero_add]
  split_ifs <;> decide

theorem atMostOnce_nil_iff {key : String} {members : List (String × Json)} :
    AtMostOnce [] key members ↔ Filter.countKey key members ≤ 1 := by
  simp [AtMostOnce]

/-- A member uses its key up for those behind it. -/
theorem atMostOnce_cons {earlier : List String} {key : String} {member : String × Json}
    {members : List (String × Json)} :
    AtMostOnce earlier key (member :: members) ↔
      (member.1 = key → member.1 ∉ earlier) ∧ AtMostOnce (member.1 :: earlier) key members := by
  unfold AtMostOnce
  rw [countKey_cons]
  by_cases hkey : member.1 = key
  · subst hkey
    by_cases hmem : member.1 ∈ earlier <;> simp [hmem]
  · simp [hkey, Ne.symm hkey]

theorem forall_atMostOnce_cons {keys earlier : List String} {member : String × Json}
    {members : List (String × Json)} :
    (∀ key ∈ keys, AtMostOnce earlier key (member :: members)) ↔
      (member.1 ∈ keys → member.1 ∉ earlier) ∧
        ∀ key ∈ keys, AtMostOnce (member.1 :: earlier) key members := by
  simp only [atMostOnce_cons]
  constructor
  · exact fun h => ⟨fun hmem => (h _ hmem).1 rfl, fun key hkey => (h key hkey).2⟩
  · exact fun h key hkey => ⟨fun heq => h.1 (heq ▸ hkey), h.2 key hkey⟩

theorem exists_readBody_iff {earlier : List String} {members : List (String × Json)} :
    (∃ clauses, readBody earlier members = .ok clauses) ↔
      (∀ member ∈ members, member.2.IsMember .top member.1) ∧
        ∀ key ∈ onceKeys, AtMostOnce earlier key members := by
  induction members generalizing earlier with
  | nil => exact iff_of_true ⟨_, rfl⟩ ⟨nofun, fun key _ => atMostOnce_nil _ key⟩
  | cons member members ih =>
    rw [readBody, List.forall_mem_cons, forall_atMostOnce_cons]
    simp only [exists_bind_eq_ok, exists_pure_eq_ok, and_true, exists_and_right, ih,
      exists_read_iff]
    exact and_and_and_comm

theorem exists_readBody_nil_iff {members : List (String × Json)} :
    (∃ clauses, readBody [] members = .ok clauses) ↔ Json.IsBody members := by
  rw [exists_readBody_iff, Json.IsBody]
  simp [onceKeys, atMostOnce_nil_iff]

/-- The members of a document, where it has a member `$query` or none. -/
def IsOuter (hasQuery : Bool) (key : String) (v : Json) : Prop :=
  match Keyword.ofKey? key with
  | some .query => ∃ body, v = .object body ∧ Json.IsBody body
  | some .orderBy => ∃ spec, SortSpec.read v = .ok spec
  | some .envelope => True
  | _ => hasQuery = false ∧ v.IsMember .top key

/-- Beside `$query`, no member restricts. -/
theorem exists_readInner_iff {hasQuery : Bool} {earlier : List String} {key : String} {v : Json}
    (hkey : key ≠ "$orderby") :
    (∃ clauses, (if hasQuery then .error (.mixedQueryEnvelope key)
      else (read earlier key v).map ([·])) = .ok clauses) ↔
      (hasQuery = false ∧ v.IsMember .top key) ∧
        (key ∈ "$orderby" :: onceKeys → key ∉ earlier) := by
  rw [List.mem_cons, or_iff_right hkey, and_assoc, ← exists_read_iff]
  cases hasQuery with
  | true => exact iff_of_false nofun nofun
  | false =>
    rw [if_neg Bool.false_ne_true, exists_map_eq_ok]
    exact (and_iff_right rfl).symm

theorem expectMembers_eq_ok_iff {key : String} {v : Json} {members : List (String × Json)} :
    v.expectMembers key = .ok members ↔ v = .object members :=
  ⟨expectMembers_eq_ok, fun h => h ▸ rfl⟩

theorem exists_readOuter_iff {hasQuery : Bool} {earlier : List String} {key : String} {v : Json} :
    (∃ clauses, readOuter hasQuery earlier key v = .ok clauses) ↔
      IsOuter hasQuery key v ∧ (key ∈ "$orderby" :: onceKeys → key ∉ earlier) := by
  unfold readOuter IsOuter
  have hother (h : Keyword.ofKey? key ≠ some .orderBy) : key ≠ "$orderby" := by
    rintro rfl
    exact h rfl
  cases hkey : Keyword.ofKey? key with
  | none => exact exists_readInner_iff (hother (hkey ▸ nofun))
  | some k =>
    cases k with
    | query =>
      have hnot : key ∉ "$orderby" :: onceKeys := by
        rw [List.mem_cons, not_or]
        exact ⟨hother (hkey ▸ nofun), not_mem_onceKeys hkey nofun nofun⟩
      simp only [exists_bind_eq_ok, exists_readBody_nil_iff, expectMembers_eq_ok_iff, hnot,
        false_imp_iff, and_true]
    | orderBy =>
      obtain rfl := Keyword.key_of_ofKey? "$orderby" hkey (by decide)
      simp only [exists_bind_eq_ok, exists_pure_eq_ok, and_true, exists_and_right,
        exists_once_iff]
      simp [and_comm]
    | envelope =>
      have hnot : key ∉ "$orderby" :: onceKeys := by
        rw [List.mem_cons, not_or]
        exact ⟨hother (hkey ▸ nofun), not_mem_onceKeys hkey nofun nofun⟩
      exact iff_of_true ⟨_, rfl⟩ ⟨trivial, fun h => absurd h hnot⟩
    | _ => exact exists_readInner_iff (hother (hkey ▸ nofun))

theorem exists_readDocument_iff {hasQuery : Bool} {earlier : List String}
    {members : List (String × Json)} :
    (∃ clauses, readDocument hasQuery earlier members = .ok clauses) ↔
      (∀ member ∈ members, IsOuter hasQuery member.1 member.2) ∧
        ∀ key ∈ "$orderby" :: onceKeys, AtMostOnce earlier key members := by
  induction members generalizing earlier with
  | nil => exact iff_of_true ⟨_, rfl⟩ ⟨nofun, fun key _ => atMostOnce_nil _ key⟩
  | cons member members ih =>
    rw [readDocument, List.forall_mem_cons, forall_atMostOnce_cons]
    simp only [exists_bind_eq_ok, exists_pure_eq_ok, and_true, exists_and_right, ih,
      exists_readOuter_iff]
    exact and_and_and_comm

end Clause

/-! ### Documents -/

namespace Filter

theorem countKey_eq_zero_iff {key : String} {members : List (String × Json)} :
    countKey key members = 0 ↔ ∀ member ∈ members, member.1 ≠ key := by
  simp [countKey, List.countP_eq_zero]

theorem exists_ofJson_iff_exists_readDocument {d : Json} :
    (∃ f, ofJson d = .ok f) ↔
      ∃ members, d = .object members ∧ countKey "$query" members ≤ 1 ∧ ∃ clauses,
        Clause.readDocument (countKey "$query" members = 1) [] members = .ok clauses := by
  simp only [ofJson, exists_bind_eq_ok, Clause.expectMembers_eq_ok_iff, exists_throw_eq_ok,
    exists_pure_eq_ok, and_true, Nat.not_lt]

/-- What the grammar asks of a member by its key. -/
theorem isOuter_iff {hasQuery : Bool} {key : String} {v : Json} :
    Clause.IsOuter hasQuery key v ↔
      (key = "$orderby" → ∃ spec, SortSpec.read v = .ok spec) ∧
        (key = "$query" → ∃ body, v = .object body ∧ Json.IsBody body) ∧
        (key ≠ "$query" → Json.isBeside key = false → hasQuery = false ∧ v.IsMember .top key) := by
  unfold Clause.IsOuter Json.isBeside
  have hkeys (name : String) (h : Keyword.ofKey? key ≠ Keyword.ofKey? name) : key ≠ name :=
    fun heq => h (heq ▸ rfl)
  cases hkey : Keyword.ofKey? key with
  | none =>
    have horder := hkeys "$orderby" (hkey ▸ nofun)
    have hquery := hkeys "$query" (hkey ▸ nofun)
    simp [horder, hquery]
  | some k =>
    cases k with
    | query =>
      obtain rfl := Keyword.key_of_ofKey? "$query" hkey (by decide)
      simp
    | orderBy =>
      obtain rfl := Keyword.key_of_ofKey? "$orderby" hkey (by decide)
      simp
    | _ =>
      have horder := hkeys "$orderby" (hkey ▸ nofun)
      have hquery := hkeys "$query" (hkey ▸ nofun)
      simp [horder, hquery]

theorem forall_isOuter_iff {hasQuery : Bool} {members : List (String × Json)} :
    (∀ member ∈ members, Clause.IsOuter hasQuery member.1 member.2) ↔
      (∀ v, ("$orderby", v) ∈ members → ∃ spec, SortSpec.read v = .ok spec) ∧
        (∀ v, ("$query", v) ∈ members → ∃ body, v = .object body ∧ Json.IsBody body) ∧
        ∀ member ∈ members, member.1 ≠ "$query" → Json.isBeside member.1 = false →
          hasQuery = false ∧ member.2.IsMember .top member.1 := by
  simp only [isOuter_iff]
  constructor
  · exact fun h => ⟨fun v hv => (h _ hv).1 rfl, fun v hv => (h _ hv).2.1 rfl,
      fun member hmember => (h member hmember).2.2⟩
  · rintro ⟨horder, hquery, hother⟩ ⟨key, v⟩ hmember
    exact ⟨fun h => horder v (h ▸ hmember), fun h => hquery v (h ▸ hmember), hother _ hmember⟩

/-- The members that stand beside the others are none of those that may be given once. -/
theorem isBody_filter_iff {members : List (String × Json)} :
    Json.IsBody (members.filter fun (key, _) => !Json.isBeside key) ↔
      (∀ member ∈ members, Json.isBeside member.1 = false → member.2.IsMember .top member.1) ∧
        ∀ key ∈ Clause.onceKeys, countKey key members ≤ 1 := by
  have hcount (name : String) (hname : Json.isBeside name = false) :
      countKey name (members.filter fun (key, _) => !Json.isBeside key) =
        countKey name members := by
    rw [countKey, countKey, List.countP_filter]
    refine List.countP_congr fun member _ => ?_
    simp only [Bool.and_eq_true, decide_eq_true_eq, Bool.not_eq_true', and_iff_left_iff_imp]
    exact fun h => h ▸ hname
  rw [Json.IsBody, hcount "$id" rfl, hcount "$sqlJson" rfl]
  simp [Clause.onceKeys, List.mem_filter]

/-- Without `$query`, the members that restrict are those of the document. -/
theorem forall_isOuter_false_iff {members : List (String × Json)}
    (hquery : countKey "$query" members = 0) :
    (∀ member ∈ members, Clause.IsOuter false member.1 member.2) ∧
        (∀ key ∈ Clause.onceKeys, countKey key members ≤ 1) ↔
      (∀ v, ("$orderby", v) ∈ members → ∃ spec, SortSpec.read v = .ok spec) ∧
        Json.IsBody (members.filter fun (key, _) => !Json.isBeside key) := by
  rw [countKey_eq_zero_iff] at hquery
  rw [forall_isOuter_iff, isBody_filter_iff]
  constructor
  · rintro ⟨⟨hsort, -, hother⟩, honce⟩
    exact ⟨hsort, fun member hmember h => (hother member hmember (hquery member hmember) h).2,
      honce⟩
  · rintro ⟨hsort, hmembers, honce⟩
    exact ⟨⟨hsort, fun v hv => absurd rfl (hquery _ hv),
      fun member hmember _ h => ⟨rfl, hmembers member hmember h⟩⟩, honce⟩

/-- Beside `$query`, only a sort order and members that are passed over may stand. -/
theorem forall_isOuter_true_iff {members : List (String × Json)} :
    (∀ member ∈ members, Clause.IsOuter true member.1 member.2) ∧
        (∀ key ∈ Clause.onceKeys, countKey key members ≤ 1) ↔
      (∀ v, ("$orderby", v) ∈ members → ∃ spec, SortSpec.read v = .ok spec) ∧
        (∀ member ∈ members, member.1 = "$query" ∨ Json.isBeside member.1) ∧
        ∀ v, ("$query", v) ∈ members → ∃ body, v = .object body ∧ Json.IsBody body := by
  rw [forall_isOuter_iff]
  constructor
  · rintro ⟨⟨hsort, hbody, hother⟩, -⟩
    refine ⟨hsort, fun member hmember => ?_, hbody⟩
    by_contra hmixed
    obtain ⟨hquery, hbeside⟩ := not_or.1 hmixed
    cases (hother member hmember hquery (Bool.eq_false_iff.2 hbeside)).1
  · rintro ⟨hsort, hbeside, hbody⟩
    refine ⟨⟨hsort, hbody, fun member hmember hquery h => ?_⟩, fun key hkey => ?_⟩
    · exact absurd (hbeside member hmember) (not_or.2 ⟨hquery, Bool.eq_false_iff.1 h⟩)
    · have hnot : ∀ key ∈ Clause.onceKeys, ¬(key = "$query" ∨ Json.isBeside key) := by decide
      have hnone : countKey key members = 0 := countKey_eq_zero_iff.2 fun member hmember heq =>
        hnot key hkey (heq ▸ hbeside member hmember)
      omega

/-- **The accepted documents are the filters of the grammar.** -/
theorem exists_ofJson_iff (d : Json) : (∃ f, ofJson d = .ok f) ↔ d.IsFilter := by
  rw [exists_ofJson_iff_exists_readDocument]
  cases d with
  | object members =>
    simp only [Json.object.injEq, exists_eq_left', Clause.exists_readDocument_iff,
      Clause.atMostOnce_nil_iff, List.forall_mem_cons, Json.IsFilter]
    rw [and_left_comm (b := countKey "$orderby" members ≤ 1), and_left_comm]
    refine and_congr_right fun _ => ?_
    obtain hzero | hone | hmany : countKey "$query" members = 0 ∨
        countKey "$query" members = 1 ∨ 1 < countKey "$query" members := by omega
    · simpa [hzero] using forall_isOuter_false_iff hzero
    · simpa [hone] using @forall_isOuter_true_iff members
    · exact iff_of_false (fun h => by omega) fun h => by omega
  | _ => exact iff_of_false nofun id

end Filter

end DocFilter
