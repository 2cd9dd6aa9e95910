import DocFilter.Compiler
import DocFilter.Proofs.Assembly.Basic
import DocFilter.Proofs.Comparisons
import DocFilter.Proofs.Json.RoundTrip

/-!
# No restriction is lost

Every member of a document that restricts leaves something behind when the filter is assembled: a
child of the root, a key, a comparison of a single value, a spatial restriction or a text search. So
a statement has no restriction only if the document has none.

## Main definitions

* `Clause.Substantial`: a contribution that leaves something behind, unless it is a sort order.
* `Assembly.Gains`: something has been added that restricts documents.

## Main results

* `Clause.substantial_of_reads`: the contributions of accepted members are substantial.
* `Assembly.gains_add`: a substantial contribution leaves something behind in every assembly.
* `Compiler.whereClause_eq_none_iff`: a statement restricts documents exactly if a member of the
  document does.
-/

namespace DocFilter

/-! ### Contributions -/

namespace Comparison

variable {path : Path} {key : String} {v : Json} {cs : List Comparison}

theorem mapM_ne_nil {α β : Type} {f : α → Except Error β} {as : List α} {bs : List β}
    (hne : as ≠ []) (h : as.mapM f = .ok bs) : bs ≠ [] := by
  have hlength := (mapM_eq_ok.1 h).length_eq
  rintro rfl
  exact hne (List.eq_nil_of_length_eq_zero hlength)

theorem ne_nil_of_readModified {m : Modifier} (h : readModified path m key v = .ok cs) :
    cs ≠ [] := by
  unfold readModified at h
  split at h
  · cases h
  · next hne => exact mapM_ne_nil hne h
  · cases h
  · obtain ⟨c, -, rfl⟩ := map_eq_ok.1 h
    exact List.cons_ne_nil c []

theorem ne_nil_of_readMember (h : readMember path key v = .ok cs) : cs ≠ [] := by
  unfold readMember at h
  split at h
  · split at h
    · exact ne_nil_of_readModified h
    · cases h
  · obtain ⟨c, -, rfl⟩ := map_eq_ok.1 h
    exact List.cons_ne_nil c []

theorem Reads.ne_nil {field : String} (h : Reads path field v cs) : cs ≠ [] := by
  cases h with
  | members hne h =>
    exact flatten_ne_nil_of_forall₂ (mapM_eq_ok.1 h) hne fun _ _ h => ne_nil_of_readMember h
  | scalar _ _ => exact List.cons_ne_nil _ _

/-- There is a comparison under `$sqlJson`. -/
theorem ne_nil_of_readAll (h : readAll v = .ok cs) : cs ≠ [] := by
  obtain ⟨members, hmembers, h⟩ := bind_eq_ok.1 h
  obtain ⟨parts, hparts, h⟩ := bind_eq_ok.1 h
  obtain rfl := Except.ok.inj h
  have hne : members ≠ [] := (Demand.expectSomeMembers_eq_ok hmembers).2
  refine flatten_ne_nil_of_forall₂ (mapM_eq_ok.1 hparts) hne fun member cs h => ?_
  obtain ⟨-, -, path, -, hreads⟩ := reads_of_readField h
  exact hreads.ne_nil

end Comparison

namespace Clause

/-- A contribution that leaves something behind, unless it is a sort order. -/
def Substantial : Clause → Prop
  | formula f => f.WellFormed
  | keys ks => ks ≠ []
  | comparisons cs => cs ≠ []
  | _ => True

/-- **Whatever an accepted member contributes is substantial.** -/
theorem substantial_of_reads {member : String × Json} {clause : Clause} (h : Reads member clause) :
    clause.Substantial := by
  cases h with
  | formula hformula => exact Formula.wellFormed_of_reads hformula
  | keys _ hkeys => exact readKeys_ne_nil hkeys
  | comparisons _ hcomparisons => exact Comparison.ne_nil_of_readAll hcomparisons
  | spatial _ _ _ _ => trivial
  | textSearch _ _ _ _ => trivial

theorem exists_sort_of_restricts_eq_false {clause : Clause} (h : clause.restricts = false) :
    ∃ s, clause = .sort s := by
  cases clause with
  | sort s => exact ⟨s, rfl⟩
  | _ => cases h

theorem allWellFormed_formulas {clauses : List Clause}
    (h : ∀ clause ∈ clauses, clause.Substantial) :
    Formula.AllWellFormed (clauses.filterMap formula?) := by
  refine Formula.allWellFormed_iff.2 fun f hf => ?_
  obtain ⟨clause, hclause, hsome⟩ := List.mem_filterMap.1 hf
  cases clause <;> cases hsome
  exact h _ hclause

end Clause

/-! ### Assemblies -/

namespace Assembly

/-- The children of the root. -/
def rootChildren (t : Assembly) : List Nat :=
  (t.nodes[0]?.map Node.children).getD []

/-- The list `ys` is the list `xs` with at least one entry added. -/
def Adds {α : Type} (xs ys : List α) : Prop :=
  ∃ added, added ≠ [] ∧ ys = xs ++ added

/-- Something has been added to an assembly that restricts documents: a child of the root, or an
entry beside the table. -/
def Gains (t t' : Assembly) : Prop :=
  Adds t.rootChildren t'.rootChildren ∨ Adds t.keys t'.keys ∨
    Adds t.comparisons t'.comparisons ∨ Adds t.spatial t'.spatial ∨
    Adds t.textSearches t'.textSearches

theorem rootChildren_insert (t : Assembly) (cs : List Condition) (modern : Bool) :
    (t.insert 0 cs modern).rootChildren =
      t.rootChildren ++ Condition.ids t.nodes.length cs := by
  obtain ⟨root, nodes, hnodes⟩ := List.exists_cons_of_ne_nil t.nodes_ne_nil
  have hid : root.id = 0 := by
    have hids := t.numbered.ids
    rw [hnodes, List.map_cons, List.length_cons, List.range'_succ, List.cons.injEq] at hids
    exact hids.1
  simp only [rootChildren, insert, Node.graft]
  rw [hnodes, List.map_cons, List.cons_append, List.getElem?_cons_zero, List.getElem?_cons_zero,
    Node.adopt, if_pos hid]
  rfl

/-- **A substantial contribution leaves something behind in every assembly.** -/
theorem gains_add (t : Assembly) {clause : Clause} (h : clause.Substantial)
    (hrestricts : clause.restricts) : t.Gains (t.add clause) := by
  cases clause with
  | formula f =>
    refine .inl ⟨_, ?_, rootChildren_insert t _ _⟩
    have hne := (Formula.filled_lower (Node.groupAt t.nodes 0) f h).1
    rw [← List.length_pos_iff, Condition.length_ids, List.length_pos_iff]
    exact hne
  | keys ks => exact .inr (.inl ⟨ks, h, rfl⟩)
  | comparisons cs => exact .inr (.inr (.inl ⟨cs, h, rfl⟩))
  | spatial s => exact .inr (.inr (.inr (.inl ⟨[s], List.cons_ne_nil _ _, rfl⟩)))
  | textSearch s => exact .inr (.inr (.inr (.inr ⟨[s], List.cons_ne_nil _ _, rfl⟩)))
  | sort s => cases hrestricts

/-- The assembly of the members of a document. -/
def ofMembers (members : List (String × Json)) : Assembly :=
  (members.flatMap Clause.contribution).foldl add empty

theorem ofMembers_concat {member : String × Json} {clause : Clause}
    (h : Clause.contribution member = [clause]) (members : List (String × Json)) :
    ofMembers (members ++ [member]) = (ofMembers members).add clause := by
  rw [ofMembers, List.flatMap_append, List.flatMap_singleton, h, List.foldl_append, ofMembers,
    List.foldl_cons, List.foldl_nil]

end Assembly

/-! ### Statements -/

namespace Filter

/-- Nothing in the filter restricts documents. -/
def Unrestricted (f : Filter) : Prop :=
  f.conditions = [] ∧ f.keys = [] ∧ f.comparisons = [] ∧ f.spatial = [] ∧ f.textSearches = []

variable {clauses : List Clause}

theorem restricts_eq_false_of_unrestricted (h : ∀ clause ∈ clauses, clause.Substantial)
    (hunrestricted : (ofClauses clauses).Unrestricted) :
    ∀ clause ∈ clauses, clause.restricts = false := by
  intro clause hclause
  obtain ⟨hconditions, hkeys, hcomparisons, hspatial, htext⟩ := hunrestricted
  have hsubstantial := h clause hclause
  cases clause with
  | formula f =>
    have hmem : f ∈ clauses.filterMap Clause.formula? := List.mem_filterMap.2 ⟨_, hclause, rfl⟩
    have hfilled := Formula.filled_lowerAll .root _ (List.ne_nil_of_mem hmem)
      (Clause.allWellFormed_formulas h)
    exact absurd hconditions hfilled.1
  | keys ks => exact absurd (List.flatMap_eq_nil_iff.1 hkeys _ hclause) hsubstantial
  | comparisons cs => exact absurd (List.flatMap_eq_nil_iff.1 hcomparisons _ hclause) hsubstantial
  | spatial s => cases List.filterMap_eq_nil_iff.1 hspatial _ hclause
  | textSearch t => cases List.filterMap_eq_nil_iff.1 htext _ hclause
  | sort s => rfl

theorem unrestricted_of_restricts_eq_false (h : ∀ clause ∈ clauses, clause.restricts = false) :
    (ofClauses clauses).Unrestricted := by
  have hformulas : clauses.filterMap Clause.formula? = [] := by
    refine List.filterMap_eq_nil_iff.2 fun clause hclause => ?_
    obtain ⟨s, rfl⟩ := Clause.exists_sort_of_restricts_eq_false (h clause hclause)
    rfl
  refine ⟨congrArg (Formula.lowerAll .root) hformulas, List.flatMap_eq_nil_iff.2 ?_,
    List.flatMap_eq_nil_iff.2 ?_, List.filterMap_eq_nil_iff.2 ?_, List.filterMap_eq_nil_iff.2 ?_⟩
  all_goals
    intro clause hclause
    obtain ⟨s, rfl⟩ := Clause.exists_sort_of_restricts_eq_false (h clause hclause)
    rfl

/-- Substantial contributions restrict nothing exactly if they are sort orders. -/
theorem unrestricted_ofClauses_iff (h : ∀ clause ∈ clauses, clause.Substantial) :
    (ofClauses clauses).Unrestricted ↔ ∀ clause ∈ clauses, clause.restricts = false :=
  ⟨restricts_eq_false_of_unrestricted h, unrestricted_of_restricts_eq_false⟩

end Filter

theorem Fragment.join_eq_none_iff {separator : String} {fragments : List Fragment} :
    Fragment.join separator fragments = none ↔ fragments = [] := by
  unfold Fragment.join
  split <;> simp_all

theorem renderKeys_eq_none_iff {column : String} {keys : List Bind} :
    renderKeys column keys = none ↔ keys = [] := by
  unfold renderKeys
  split <;> simp_all

theorem Expression.ofConditions?_eq_none_iff {features : Features} {cs : List Condition} :
    Expression.ofConditions? features cs = none ↔ cs = [] := by
  simp [Expression.ofConditions?]

namespace Compiler

theorem whereClause_compile_eq_none_iff (c : Compiler) (f : Filter) :
    (c.compile f).whereClause = none ↔ f.Unrestricted := by
  rw [Compiled.whereClause, Fragment.join_eq_none_iff, Compiled.restrictions]
  simp [compile, Filter.Unrestricted, Expression.ofConditions?_eq_none_iff, renderKeys_eq_none_iff]

end Compiler

/-! ### Documents -/

namespace Clause

variable {members : List (String × Json)}

/-- A member of an accepted document that restricts contributes one thing, which is substantial. -/
theorem exists_contribution_of_accepted (h : Accepted members) {member : String × Json}
    (hmember : member ∈ unwrapped members) (hbeside : Json.isBeside member.1 = false) :
    ∃ clause, contribution member = [clause] ∧ clause.Substantial ∧ clause.restricts := by
  obtain ⟨clause, hread⟩ := exists_read_of_accepted h hmember hbeside
  have hreads := reads_of_read hread
  exact ⟨clause, contribution_of_read hread, substantial_of_reads hreads, hreads.restricts⟩

/-- A member that stands beside those that restrict contributes a sort order at most. -/
theorem restricts_eq_false_of_isBeside {member : String × Json} (hbeside : Json.isBeside member.1)
    {clause : Clause} (h : clause ∈ contribution member) : clause.restricts = false := by
  unfold contribution at h
  unfold Json.isBeside at hbeside
  split at hbeside
  · next hkey =>
    rw [hkey] at h
    dsimp only at h
    obtain ⟨spec, -, rfl⟩ := Option.map_eq_some_iff.1 (Option.mem_toList.1 h)
    rfl
  · next hkey =>
    rw [hkey] at h
    cases h
  · cases hbeside

theorem forall_substantial_of_accepted (h : Accepted members) :
    ∀ clause ∈ (unwrapped members).flatMap contribution, clause.Substantial := by
  intro clause hclause
  obtain ⟨member, hmember, hclause⟩ := List.mem_flatMap.1 hclause
  cases hbeside : Json.isBeside member.1 with
  | true =>
    have hrestricts := restricts_eq_false_of_isBeside hbeside hclause
    obtain ⟨s, rfl⟩ := exists_sort_of_restricts_eq_false hrestricts
    trivial
  | false =>
    obtain ⟨clause', heq, hsubstantial, -⟩ := exists_contribution_of_accepted h hmember hbeside
    rw [heq] at hclause
    obtain rfl := List.mem_singleton.1 hclause
    exact hsubstantial

theorem forall_restricts_iff (h : Accepted members) :
    (∀ clause ∈ (unwrapped members).flatMap contribution, clause.restricts = false) ↔
      ∀ member ∈ unwrapped members, Json.isBeside member.1 := by
  constructor
  · intro hnone member hmember
    by_contra hbeside
    obtain ⟨clause, heq, -, hrestricts⟩ :=
      exists_contribution_of_accepted h hmember (Bool.eq_false_iff.2 hbeside)
    have hmem : clause ∈ (unwrapped members).flatMap contribution :=
      List.mem_flatMap.2 ⟨member, hmember, heq ▸ List.mem_singleton_self clause⟩
    rw [hnone clause hmem] at hrestricts
    cases hrestricts
  · intro hbeside clause hclause
    obtain ⟨member, hmember, hclause⟩ := List.mem_flatMap.1 hclause
    exact restricts_eq_false_of_isBeside (hbeside member hmember) hclause

end Clause

/-- **No restriction is lost.** A statement for an accepted document has no restriction exactly if
the document, with the members under `$query` in its place, has only a sort order and members that
are passed over. Indeed the filter is assembled from its members in turn, and each of the others
adds a child of the root, or an entry beside the table. -/
theorem Compiler.whereClause_eq_none_iff {members : List (String × Json)} {f : Filter}
    (h : Filter.ofJson (.object members) = .ok f) :
    (∀ c : Compiler, (c.compile f).whereClause = none ↔
      ∀ member ∈ Clause.unwrapped members, Json.isBeside member.1) ∧
    Assembly.ofMembers (Clause.unwrapped members) = .ofFilter f ∧
    ∀ before member after, Clause.unwrapped members = before ++ member :: after →
      Json.isBeside member.1 = false →
        (Assembly.ofMembers before).Gains (.ofMembers (before ++ [member])) := by
  obtain ⟨haccepted, rfl⟩ := Filter.ofJson_object_eq_ok_iff.1 h
  refine ⟨fun c => ?_, Assembly.foldl_add _, fun before member after heq hbeside => ?_⟩
  · have hsubstantial := Clause.forall_substantial_of_accepted haccepted
    rw [whereClause_compile_eq_none_iff, Filter.unrestricted_ofClauses_iff hsubstantial,
      Clause.forall_restricts_iff haccepted]
  · have hmember : member ∈ Clause.unwrapped members := by
      rw [heq]
      exact List.mem_append_right before List.mem_cons_self
    obtain ⟨clause, hclause, hsubstantial, hrestricts⟩ :=
      Clause.exists_contribution_of_accepted haccepted hmember hbeside
    rw [Assembly.ofMembers_concat hclause]
    exact Assembly.gains_add _ hsubstantial hrestricts

/-- A repeated key and a distributed `$not` under `$query`, beside a sort order and a member that is
passed over. -/
theorem Compiler.whereClause_eq_none_iff_query :
    ∃ (keys condition : String × Json) (f : Filter),
      keys = ("$id", .array [.string "k", .string "k"]) ∧
      condition = ("a", .object [("$not", .object [("$exists", .bool true)])]) ∧
      Filter.ofJson (.object [("$query", .object [keys, condition]),
        ("$orderby", .object [("a", .number (.ofNat 1))]), ("$project", .null)]) = .ok f ∧
      (∀ c : Compiler, (c.compile f).whereClause ≠ none) ∧
      (Assembly.ofMembers []).Gains (.ofMembers [keys]) ∧
      (Assembly.ofMembers [keys]).Gains (.ofMembers [keys, condition]) := by
  obtain ⟨f, hf⟩ : ∃ f, Filter.ofJson (.object
      [("$query", .object [("$id", .array [.string "k", .string "k"]),
        ("a", .object [("$not", .object [("$exists", .bool true)])])]),
      ("$orderby", .object [("a", .number (.ofNat 1))]), ("$project", .null)]) = .ok f := ⟨_, rfl⟩
  have h := whereClause_eq_none_iff hf
  refine ⟨_, _, f, rfl, rfl, hf, fun c hc => ?_, h.2.2 [] _ _ rfl (by decide),
    h.2.2 [_] _ _ rfl (by decide)⟩
  exact absurd ((h.1 c).1 hc _ List.mem_cons_self) (by decide)

end DocFilter
