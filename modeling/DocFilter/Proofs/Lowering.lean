import DocFilter.Proofs.Meaning

/-!
# Lowering keeps the meaning

The conditions of a formula depend on the group that they are placed in: a connective of the same
kind is dissolved in it, several demands on a field get a conjunction of their own outside of one,
and a negated conjunction of tests becomes a disjunction. For every group, joining the conditions
the way the group does means what the formula means. Together with `Formula.holds_of_reads` this
gives the meaning of a whole filter.

## Main definitions

* `Group.Joins`: the conditions of a group, joined, without the polarity of the group.

## Main results

* `Formula.joins_lower`: lowering keeps the meaning in every group.
* `Filter.holds_iff_document_holds`: a filter that has been read means what its document means.
-/

namespace DocFilter

universe u

variable {α : Type u} {I : Interpretation α} {a : α}

/-! ### Lists of conditions -/

namespace Condition

theorem allHold_iff {cs : List Condition} : AllHold I cs a ↔ ∀ c ∈ cs, c.Holds I a := by
  induction cs with
  | nil => simp [AllHold]
  | cons c cs ih => rw [AllHold, ih, List.forall_mem_cons]

theorem someHolds_iff {cs : List Condition} : SomeHolds I cs a ↔ ∃ c ∈ cs, c.Holds I a := by
  induction cs with
  | nil => simp [SomeHolds]
  | cons c cs ih => simp [SomeHolds, ih]

theorem allHold_append {cs cs' : List Condition} :
    AllHold I (cs ++ cs') a ↔ AllHold I cs a ∧ AllHold I cs' a := by
  simp only [allHold_iff, List.forall_mem_append]

theorem someHolds_append {cs cs' : List Condition} :
    SomeHolds I (cs ++ cs') a ↔ SomeHolds I cs a ∨ SomeHolds I cs' a := by
  simp only [someHolds_iff, List.mem_append, or_and_right, exists_or]

theorem allHold_flatMap {β : Type} {f : β → List Condition} {bs : List β} :
    AllHold I (bs.flatMap f) a ↔ ∀ b ∈ bs, AllHold I (f b) a := by
  simp only [allHold_iff, List.forall_mem_flatMap]

end Condition

open Condition

/-! ### Groups -/

namespace Group

variable (I) in
/-- The conditions of a group joined by its junction, without the polarity of the group. -/
def Joins (g : Group) (cs : List Condition) (a : α) : Prop :=
  match g.junction with
  | .and => AllHold I cs a
  | .or => SomeHolds I cs a

theorem joins_singleton (g : Group) {c : Condition} : g.Joins I [c] a ↔ c.Holds I a := by
  cases hg : g.junction <;> simp [Joins, hg, AllHold, SomeHolds]

theorem joins_of_absorbs_and {g : Group} (hg : g.absorbs .and) {cs : List Condition} :
    g.Joins I cs a ↔ AllHold I cs a := by
  have hand : g.junction = .and := by simpa [absorbs] using hg
  rw [Joins, hand]

theorem joins_of_or {g : Group} (hg : g.junction = .or) {cs : List Condition} :
    g.Joins I cs a ↔ SomeHolds I cs a := by
  rw [Joins, hg]

theorem junction_of_absorbs_or {g : Group} (hg : g.absorbs .or) : g.junction = .or := by
  simp only [absorbs, Bool.and_eq_true, decide_eq_true_eq] at hg
  exact hg.1

end Group

/-! ### Demands -/

namespace Demand

variable {path : Path}

/-- The opposite tests, one of which has to hold where not all tests do. -/
theorem someHolds_negate (tests : List Test) :
    SomeHolds I (tests.map fun t => leaf path t.negate) a ↔ ¬∀ t ∈ tests, t.Holds I path a := by
  rw [someHolds_iff, not_forall]
  constructor
  · rintro ⟨c, hc, hholds⟩
    obtain ⟨t, ht, rfl⟩ := List.mem_map.1 hc
    exact ⟨t, fun h => (Test.holds_negate I path t a).1 hholds (h ht)⟩
  · rintro ⟨t, ht⟩
    obtain ⟨hmem, hnot⟩ := Classical.not_imp.1 ht
    exact ⟨_, List.mem_map_of_mem hmem, (Test.holds_negate I path t a).2 hnot⟩

theorem joins_lower (g : Group) {d : Demand} (hd : d.tests ≠ []) :
    g.Joins I (d.lower path g) a ↔ d.Holds I path a := by
  unfold Demand.lower
  split
  · rw [g.joins_singleton, Condition.Holds, Demand.Holds]
  · exact absurd rfl hd
  · next t =>
    rw [g.joins_singleton, Condition.Holds, Test.holds_negate, Demand.Holds,
      List.forall_mem_singleton]
  · next tests _ _ =>
    dsimp only
    split
    · next hg =>
      rw [Group.joins_of_or (Group.junction_of_absorbs_or hg), someHolds_negate, Demand.Holds]
    · rw [g.joins_singleton, Condition.Holds, someHolds_negate, Demand.Holds]

theorem allHold_flatMap_lower {g : Group} (hg : g.absorbs .and) {demands : List Demand}
    (h : ∀ d ∈ demands, d.tests ≠ []) :
    AllHold I (demands.flatMap (Demand.lower path g)) a ↔ ∀ d ∈ demands, d.Holds I path a := by
  rw [allHold_flatMap]
  refine forall₂_congr fun d hd => ?_
  rw [← Group.joins_of_absorbs_and hg, joins_lower g (h d hd)]

theorem joins_lowerAll (g : Group) {demands : List Demand} (hne : demands ≠ [])
    (h : ∀ d ∈ demands, d.tests ≠ []) :
    g.Joins I (Demand.lowerAll path g demands) a ↔ ∀ d ∈ demands, d.Holds I path a := by
  unfold Demand.lowerAll
  split
  · rw [g.joins_singleton, Condition.Holds, allHold_flatMap_lower rfl h]
  · next hplace =>
    by_cases hg : g.absorbs .and
    · rw [Group.joins_of_absorbs_and hg, allHold_flatMap_lower hg h]
    · -- outside of a conjunction there is a single demand
      obtain ⟨d, rfl⟩ : ∃ d, demands = [d] := by
        rw [← List.length_eq_one_iff]
        have hlength := List.length_pos_iff.2 hne
        simp only [Bool.and_eq_true, decide_eq_true_eq, Bool.not_eq_true', hg, and_true] at hplace
        omega
      rw [List.flatMap_singleton, List.forall_mem_singleton]
      exact joins_lower g (h d List.mem_cons_self)

end Demand

/-! ### Formulas -/

namespace Formula

mutual

/-- **Lowering keeps the meaning of a formula in every group.** -/
theorem joins_lower (g : Group) :
    (f : Formula) → f.WellFormed → (a : α) → (g.Joins I (f.lower g) a ↔ f.Holds I a)
  | field path demands, h, a => by
      rw [lower, Holds]
      exact Demand.joins_lowerAll g h.2.1 fun d hd => (h.2.2 d hd).1
  | within path body, h, a => by
      rw [lower, g.joins_singleton, Condition.Holds, Holds]
      exact exists_congr fun b => and_congr_right fun _ => allHold_lowerAll rfl body h.2.2 b
  | negation body, h, a => by
      rw [lower, g.joins_singleton, Condition.Holds, Holds]
      exact not_congr (allHold_lowerAll rfl body h.2 a)
  | junction .and items, h, a => by
      rw [lower, Holds]
      split
      · next hg =>
        rw [Group.joins_of_absorbs_and hg]
        exact allHold_lowerItems hg items h.2 a
      · rw [g.joins_singleton]
        exact allHold_lowerItems rfl items h.2 a
  | junction .or items, h, a => by
      rw [lower, Holds]
      split
      · next hg =>
        have hor := Group.junction_of_absorbs_or hg
        rw [Group.joins_of_or hor]
        exact someHolds_lowerItems hor items h.2 a
      · rw [g.joins_singleton]
        exact someHolds_lowerItems rfl items h.2 a
  | junction .nor items, h, a => by
      have hnor : ¬g.absorbs .nor = true := Bool.false_ne_true
      rw [lower, Holds, if_neg hnor, g.joins_singleton]
      exact not_congr (someHolds_lowerItems rfl items h.2 a)

/-- The formulas of a conjunction, placed in a conjunction. -/
theorem allHold_lowerAll {g : Group} (hg : g.absorbs .and) :
    (fs : List Formula) → AllWellFormed fs → (a : α) →
      (Condition.AllHold I (lowerAll g fs) a ↔ AllHold I fs a)
  | [], _, a => by rw [lowerAll, Condition.AllHold, AllHold]
  | f :: fs, h, a => by
      rw [lowerAll, allHold_append, AllHold, allHold_lowerAll hg fs h.2 a,
        ← Group.joins_of_absorbs_and hg, joins_lower g f h.1 a]

/-- The filters under `$and`, placed in a conjunction. -/
theorem allHold_lowerItems {g : Group} (hg : g.absorbs .and) :
    (items : List (List Formula)) → ItemsWellFormed items → (a : α) →
      (Condition.AllHold I (lowerItems g items) a ↔ EveryHolds I items a)
  | [], _, a => by rw [lowerItems, Condition.AllHold, EveryHolds]
  | fs :: items, h, a => by
      rw [lowerItems, if_pos (by rw [hg, Bool.true_or]), allHold_append, EveryHolds,
        allHold_lowerAll hg fs h.2.1 a, allHold_lowerItems hg items h.2.2 a]

/-- The filters under `$or` or `$nor`, placed in a disjunction. A filter of one member needs no
conjunction around it. -/
theorem someHolds_lowerItems {g : Group} (hg : g.junction = .or) :
    (items : List (List Formula)) → ItemsWellFormed items → (a : α) →
      (Condition.SomeHolds I (lowerItems g items) a ↔ SomeHolds I items a)
  | [], _, a => by rw [lowerItems, Condition.SomeHolds, SomeHolds]
  | [f] :: items, h, a => by
      rw [lowerItems, if_pos (by simp), someHolds_append, SomeHolds,
        someHolds_lowerItems hg items h.2.2 a, lowerAll, lowerAll, List.append_nil,
        ← Group.joins_of_or hg, joins_lower g f h.2.1.1 a, AllHold, AllHold, and_true]
  | [] :: items, h, a => absurd rfl h.1
  | (f :: f' :: fs) :: items, h, a => by
      have habsorbs : g.absorbs .and = false := by simp [Group.absorbs, hg]
      rw [lowerItems, if_neg (by simp [habsorbs]), someHolds_append, SomeHolds,
        someHolds_lowerItems hg items h.2.2 a, Condition.SomeHolds, Condition.SomeHolds, or_false,
        Condition.Holds, allHold_lowerAll rfl (f :: f' :: fs) h.2.1 a]

end

end Formula

theorem Formula.allHold_iff {fs : List Formula} : AllHold I fs a ↔ ∀ f ∈ fs, f.Holds I a := by
  induction fs with
  | nil => simp [AllHold]
  | cons f fs ih => rw [AllHold, ih, List.forall_mem_cons]

/-! ### Contributions of members -/

namespace Clause

variable (I) in
/-- The meaning of what a member contributes. A sort order restricts nothing. -/
def Holds : Clause → α → Prop
  | formula f, a => f.Holds I a
  | keys ks, a => I.keys ks a
  | comparisons cs, a => ∀ c ∈ cs, I.comparison c a
  | spatial s, a => I.spatial s a
  | textSearch t, a => I.textSearch t a
  | sort _, _ => True

/-- The object of a field with a spatial or text operator is no object of fields. -/
theorem memberHolds_side {key operator : String} {operand : Json} {k : Keyword}
    (hkey : Keyword.ofKey? key = none) (hoperator : Keyword.ofKey? operator = some k)
    (hk : k.isConnective = false) :
    Json.MemberHolds I key (.object [(operator, operand)]) a ↔
      Json.OperatorHolds I (.named key) none operator operand a := by
  rw [Json.MemberHolds.eq_def, hkey]
  simp [isFieldKey, hoperator, hk, Json.OperatorsHold]

theorem holds_of_reads {key : String} {v : Json} {clause : Clause} (h : Reads (key, v) clause) :
    clause.Holds I a ↔ Json.MemberHolds I key v a := by
  cases h with
  | formula hformula => exact Formula.holds_of_reads a hformula
  | keys hkey hkeys =>
    rw [Json.MemberHolds.eq_def, hkey]
    exact ⟨fun h ks hks => Except.ok.inj (hkeys.symm.trans hks) ▸ h, fun h => h _ hkeys⟩
  | comparisons hkey hcomparisons =>
    rw [Json.MemberHolds.eq_def, hkey]
    exact ⟨fun h cs hcs => Except.ok.inj (hcomparisons.symm.trans hcs) ▸ h,
      fun h => h _ hcomparisons⟩
  | spatial hkey hpath hoperator hspatial =>
    rw [memberHolds_side hkey hoperator rfl, Path.named_of_ofText hpath, Json.OperatorHolds.eq_def,
      hoperator]
    exact ⟨fun h s hs => Except.ok.inj (hspatial.symm.trans hs) ▸ h, fun h => h _ hspatial⟩
  | textSearch hkey hpath hoperator htext =>
    rw [memberHolds_side hkey hoperator rfl, Path.named_of_ofText hpath, Json.OperatorHolds.eq_def,
      hoperator]
    exact ⟨fun h t ht => Except.ok.inj (htext.symm.trans ht) ▸ h, fun h => h _ htext⟩

theorem forall_holds_of_reads {members : List (String × Json)} {clauses : List Clause}
    (h : List.Forall₂ Reads members clauses) :
    (∀ clause ∈ clauses, clause.Holds I a) ↔ Json.MembersHold I members a := by
  induction h with
  | nil => simp [Json.MembersHold]
  | cons hmember _ ih =>
    rw [List.forall_mem_cons, Json.MembersHold, holds_of_reads hmember, ih]

end Clause

theorem Json.membersHold_append (members members' : List (String × Json)) :
    MembersHold I (members ++ members') a ↔ MembersHold I members a ∧ MembersHold I members' a := by
  induction members with
  | nil => rw [List.nil_append, MembersHold, true_and]
  | cons member members ih =>
    rw [List.cons_append, MembersHold, MembersHold, ih, and_assoc]

/-- Only the restricting members of a document matter for its meaning. -/
theorem Json.membersHold_restricting (members : List (String × Json)) :
    MembersHold I (Clause.restricting members) a ↔ MembersHold I members a := by
  induction members with
  | nil => rfl
  | cons member members ih =>
    obtain ⟨key, v⟩ := member
    rw [Clause.restricting, List.flatMap_cons, membersHold_append]
    refine and_congr ?_ ih
    dsimp only
    cases hkey : Keyword.ofKey? key with
    | none => simp [MembersHold]
    | some k =>
      cases k
      case query => cases v <;> rw [MemberHolds.eq_def, hkey] <;> simp [MembersHold]
      case orderBy | envelope => rw [MemberHolds.eq_def, hkey]; simp [MembersHold]
      all_goals simp [MembersHold]

/-! ### Whole filters -/

/-- A contribution of keys is the only one, so that the keys of the filter are its keys. -/
theorem Clause.keys_holds_iff {clauses : List Clause}
    (hone : (clauses.filterMap Clause.keys?).length ≤ 1)
    (hne : ∀ ks ∈ clauses.filterMap Clause.keys?, ks ≠ []) :
    (clauses.flatMap Clause.keysOf ≠ [] → I.keys (clauses.flatMap Clause.keysOf) a) ↔
      ∀ ks ∈ clauses.filterMap Clause.keys?, I.keys ks a := by
  rw [Clause.flatMap_keysOf]
  generalize clauses.filterMap Clause.keys? = kss at hone hne
  match kss with
  | [] => simp
  | [ks] => simp [hne ks List.mem_cons_self]
  | _ :: _ :: _ => simp at hone

theorem Filter.holds_ofClauses {clauses : List Clause}
    (hformula : ∀ f, Clause.formula f ∈ clauses → f.WellFormed)
    (hone : (clauses.filterMap Clause.keys?).length ≤ 1)
    (hne : ∀ ks ∈ clauses.filterMap Clause.keys?, ks ≠ []) :
    (Filter.ofClauses clauses).Holds I a ↔ ∀ clause ∈ clauses, clause.Holds I a := by
  have hmem {f : Formula} : f ∈ clauses.filterMap Clause.formula? ↔ .formula f ∈ clauses := by
    rw [List.mem_filterMap]
    constructor
    · rintro ⟨clause, hclause, hf⟩
      cases clause <;> simp only [Clause.formula?, Option.some.injEq, reduceCtorEq] at hf
      exact hf ▸ hclause
    · exact fun h => ⟨_, h, rfl⟩
  have hwf : Formula.AllWellFormed (clauses.filterMap Clause.formula?) :=
    Formula.allWellFormed_iff.2 fun f hf => hformula f (hmem.1 hf)
  simp only [Filter.Holds, Filter.ofClauses]
  rw [Formula.allHold_lowerAll rfl _ hwf, Formula.allHold_iff, Clause.keys_holds_iff hone hne]
  constructor
  · rintro ⟨hf, hk, hc, hs, ht⟩ clause hclause
    cases clause with
    | formula f => exact hf f (hmem.2 hclause)
    | keys ks => exact hk ks (List.mem_filterMap.2 ⟨_, hclause, rfl⟩)
    | comparisons cs => exact fun c hc' => hc c (List.mem_flatMap.2 ⟨_, hclause, hc'⟩)
    | spatial s => exact hs s (List.mem_filterMap.2 ⟨_, hclause, rfl⟩)
    | textSearch t => exact ht t (List.mem_filterMap.2 ⟨_, hclause, rfl⟩)
    | sort s => trivial
  · intro h
    refine ⟨fun f hf => h _ (hmem.1 hf), fun ks hks => ?_, fun c hc => ?_, fun s hs => ?_,
      fun t ht => ?_⟩
    · obtain ⟨clause, hclause, heq⟩ := List.mem_filterMap.1 hks
      cases clause <;> cases heq
      exact h _ hclause
    · obtain ⟨clause, hclause, hmem'⟩ := List.mem_flatMap.1 hc
      cases clause with
      | comparisons cs => exact h _ hclause c hmem'
      | _ => cases hmem'
    · obtain ⟨clause, hclause, heq⟩ := List.mem_filterMap.1 hs
      cases clause <;> cases heq
      exact h _ hclause
    · obtain ⟨clause, hclause, heq⟩ := List.mem_filterMap.1 ht
      cases clause <;> cases heq
      exact h _ hclause

/-- Contributions that do not restrict hold everywhere. -/
theorem Clause.forall_holds_filter {clauses : List Clause} :
    (∀ clause ∈ clauses.filter Clause.restricts, clause.Holds I a) ↔
      ∀ clause ∈ clauses, clause.Holds I a := by
  simp only [List.mem_filter, and_imp]
  refine forall₂_congr fun clause _ => ⟨fun h => ?_, fun h _ => h⟩
  cases clause with
  | sort s => trivial
  | _ => exact h rfl

/-- **A filter that has been read means what its document means**, whatever the comparisons and
paths in it mean. -/
theorem Filter.holds_iff_document_holds {d : Json} {f : Filter} (h : Filter.ofJson d = .ok f)
    (I : Interpretation α) (a : α) : f.Holds I a ↔ d.Holds I a := by
  obtain ⟨members, clauses, rfl, rfl, hreads, hone⟩ := Filter.reads_of_ofJson h
  have hformula (φ : Formula) (hφ : .formula φ ∈ clauses) : φ.WellFormed := by
    obtain ⟨member, hmember⟩ := Clause.exists_reads hreads hφ rfl
    cases hmember with
    | formula hformula => exact Formula.wellFormed_of_reads hformula
  have hne (ks : List Bind) (hks : ks ∈ clauses.filterMap Clause.keys?) : ks ≠ [] := by
    obtain ⟨clause, hclause, heq⟩ := List.mem_filterMap.1 hks
    cases clause <;> cases heq
    obtain ⟨member, hmember⟩ := Clause.exists_reads hreads hclause rfl
    cases hmember with
    | keys _ hkeys => exact Clause.readKeys_ne_nil hkeys
  rw [Filter.holds_ofClauses hformula hone hne, ← Clause.forall_holds_filter,
    Clause.forall_holds_of_reads hreads, Json.membersHold_restricting, Json.Holds]

/-- A filter with a distributed `$not` inside `$nor`, several members under `$or`, a field of fields
and a key beside them. -/
theorem Filter.holds_iff_document_holds_nor :
    ∃ d f, d = Json.object
        [("$nor", .array [.object [("a", .object [("$not", .object
            [("$between", .array [.number (.ofNat 1), .number (.ofNat 9)])])])]]),
          ("$or", .array [.object [("b", .bool true), ("c", .null)],
            .object [("e", .object [("g", .array [.string "x"])])]]),
          ("$id", .string "k")] ∧
      Filter.ofJson d = .ok f ∧ ∀ (I : Interpretation Nat) (a : Nat), f.Holds I a ↔ d.Holds I a :=
  ⟨_, _, rfl, rfl, Filter.holds_iff_document_holds rfl⟩

end DocFilter
