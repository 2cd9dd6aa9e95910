import DocFilter.Proofs.Acceptance.Filters

/-!
# Contributions of members

A document is read member by member, and the keys that have been read before decide whether a
member may stand where it stands. They do not decide what it contributes. So the filter of an
accepted document is made of what its members contribute each by itself, and whether a document is
accepted can be said without the order of its members.

## Main definitions

* `Clause.unwrapped`: the members of a document, those under `$query` in its place.
* `Clause.contribution`: what a member contributes by itself.
* `Clause.Accepted`: the members that make a filter.

## Main results

* `Clause.eq_flatMap_of_readDocument`: the contributions of a document.
* `Filter.ofJson_object_eq_ok_iff`: the accepted documents with their filters.
* `Clause.accepted_iff`, `Clause.accepted_query_iff`: the two forms of accepted documents.
-/

namespace DocFilter

namespace Clause

/-! ### What a member contributes -/

/-- The members of a document, with those under `$query` in its place. -/
def unwrapped (members : List (String × Json)) : List (String × Json) :=
  members.flatMap fun (key, v) =>
    match Keyword.ofKey? key, v with
    | some .query, .object body => body
    | _, v => [(key, v)]

/-- What a member contributes by itself. -/
def contribution (member : String × Json) : List Clause :=
  match Keyword.ofKey? member.1 with
  | some .query => []
  | some .orderBy => ((SortSpec.read member.2).toOption.map sort).toList
  | some .envelope => []
  | _ => (read [] member.1 member.2).toOption.toList

/-- The keys that have been read before do not change what a member contributes. -/
theorem read_nil_of_read {earlier : List String} {key : String} {v : Json} {clause : Clause}
    (h : read earlier key v = .ok clause) : read [] key v = .ok clause := by
  unfold read at h ⊢
  split at h
  · obtain ⟨u, -, h⟩ := bind_eq_ok.1 h
    exact bind_eq_ok.2 ⟨(), if_neg List.not_mem_nil, h⟩
  · obtain ⟨u, -, h⟩ := bind_eq_ok.1 h
    exact bind_eq_ok.2 ⟨(), if_neg List.not_mem_nil, h⟩
  · exact h
  · exact h

/-- No member that restricts is `$query`, a sort order or passed over. -/
theorem keyword_of_read {earlier : List String} {key : String} {v : Json} {clause : Clause}
    (h : read earlier key v = .ok clause) : Keyword.ofKey? key ≠ some .query ∧
      Keyword.ofKey? key ≠ some .orderBy ∧ Keyword.ofKey? key ≠ some .envelope := by
  have hmember := (exists_read_iff.1 ⟨clause, h⟩).1
  rw [Json.IsMember.eq_def] at hmember
  refine ⟨?_, ?_, ?_⟩
  all_goals
    intro hkey
    rw [hkey] at hmember
    exact hmember

theorem contribution_of_read {earlier : List String} {key : String} {v : Json} {clause : Clause}
    (h : read earlier key v = .ok clause) : contribution (key, v) = [clause] := by
  obtain ⟨hquery, hsort, henvelope⟩ := keyword_of_read h
  unfold contribution
  split
  · exact absurd ‹_› hquery
  · exact absurd ‹_› hsort
  · exact absurd ‹_› henvelope
  · rw [read_nil_of_read h]
    rfl

theorem unwrapped_cons (member : String × Json) (members : List (String × Json)) :
    unwrapped (member :: members) = unwrapped [member] ++ unwrapped members := by
  simp [unwrapped]

theorem unwrapped_singleton_of_ne {key : String} {v : Json} (h : Keyword.ofKey? key ≠ some .query) :
    unwrapped [(key, v)] = [(key, v)] := by
  rw [unwrapped, List.flatMap_singleton]
  dsimp only
  split
  · exact absurd ‹_› h
  · rfl

theorem eq_flatMap_of_readBody {earlier : List String} {members : List (String × Json)}
    {clauses : List Clause} (h : readBody earlier members = .ok clauses) :
    clauses = members.flatMap contribution := by
  induction members generalizing earlier clauses with
  | nil => exact (Except.ok.inj h).symm
  | cons member members ih =>
    obtain ⟨clause, hclause, h⟩ := bind_eq_ok.1 h
    obtain ⟨others, hothers, h⟩ := bind_eq_ok.1 h
    rw [← Except.ok.inj h, List.flatMap_cons, contribution_of_read hclause, ← ih hothers,
      List.singleton_append]

theorem eq_flatMap_of_readsOuter {hasQuery : Bool} {earlier : List String} {key : String}
    {v : Json} {clauses : List Clause} (h : ReadsOuter hasQuery earlier (key, v) clauses) :
    clauses = (unwrapped [(key, v)]).flatMap contribution := by
  cases h with
  | query hkey hbody =>
    rw [eq_flatMap_of_readBody hbody, unwrapped, List.flatMap_singleton]
    simp only [hkey]
  | sort hkey hsort =>
    rw [unwrapped_singleton_of_ne (by simp [hkey]), List.flatMap_singleton]
    simp [contribution, hkey, hsort, Except.toOption]
  | envelope hkey =>
    rw [unwrapped_singleton_of_ne (by simp [hkey]), List.flatMap_singleton]
    simp [contribution, hkey]
  | restriction _ hkey hclause =>
    rw [unwrapped_singleton_of_ne hkey.1, List.flatMap_singleton, contribution_of_read hclause]

/-- **A document contributes what its members contribute each by itself, in order.** -/
theorem eq_flatMap_of_readDocument {hasQuery : Bool} {earlier : List String}
    {members : List (String × Json)} {clauses : List Clause}
    (h : readDocument hasQuery earlier members = .ok clauses) :
    clauses = (unwrapped members).flatMap contribution := by
  induction members generalizing earlier clauses with
  | nil => exact (Except.ok.inj h).symm
  | cons member members ih =>
    obtain ⟨own, hown, h⟩ := bind_eq_ok.1 h
    obtain ⟨others, hothers, h⟩ := bind_eq_ok.1 h
    have howns := eq_flatMap_of_readsOuter (readsOuter_of_readOuter hown)
    rw [← Except.ok.inj h, unwrapped_cons, List.flatMap_append, ← howns, ← ih hothers]

/-! ### Accepted documents -/

/-- The members that make a filter: each may stand in the document, and none is given twice that may
be given once. -/
def Accepted (members : List (String × Json)) : Prop :=
  Filter.countKey "$query" members ≤ 1 ∧
    (∀ member ∈ members,
      IsOuter (decide (Filter.countKey "$query" members = 1)) member.1 member.2) ∧
    ∀ key ∈ "$orderby" :: onceKeys, Filter.countKey key members ≤ 1

/-- A sort order is given once at most, and can be read. -/
def SortsOnce (members : List (String × Json)) : Prop :=
  Filter.countKey "$orderby" members ≤ 1 ∧
    ∀ v, ("$orderby", v) ∈ members → ∃ spec, SortSpec.read v = .ok spec

/-- **The accepted documents without `$query`.** -/
theorem accepted_iff {members : List (String × Json)}
    (hquery : Filter.countKey "$query" members = 0) :
    Accepted members ↔
      SortsOnce members ∧ Json.IsBody (members.filter fun (key, _) => !Json.isBeside key) := by
  rw [Accepted, SortsOnce, List.forall_mem_cons, hquery, and_assoc,
    ← Filter.forall_isOuter_false_iff hquery]
  exact ⟨fun ⟨_, hmembers, hsort, honce⟩ => ⟨hsort, hmembers, honce⟩,
    fun ⟨hsort, hmembers, honce⟩ => ⟨Nat.zero_le 1, hmembers, hsort, honce⟩⟩

theorem countKey_append (key : String) (members members' : List (String × Json)) :
    Filter.countKey key (members ++ members') =
      Filter.countKey key members + Filter.countKey key members' :=
  List.countP_append

/-- A key that a member between others does not have is counted among the others. -/
theorem countKey_middle {key : String} {member : String × Json} (h : member.1 ≠ key)
    (before after : List (String × Json)) :
    Filter.countKey key (before ++ member :: after) = Filter.countKey key (before ++ after) := by
  rw [countKey_append, countKey_cons, if_neg h, countKey_append, Nat.add_zero]

theorem countKey_query_of_isBeside {members : List (String × Json)}
    (h : ∀ member ∈ members, Json.isBeside member.1) : Filter.countKey "$query" members = 0 := by
  refine Filter.countKey_eq_zero_iff.2 fun member hmember heq => ?_
  have hbeside := h member hmember
  rw [heq] at hbeside
  revert hbeside
  decide

/-- **The accepted documents with `$query`.** -/
theorem accepted_query_iff {before after body : List (String × Json)} :
    Accepted (before ++ ("$query", .object body) :: after) ↔
      SortsOnce (before ++ after) ∧ (∀ member ∈ before ++ after, Json.isBeside member.1) ∧
        Json.IsBody body := by
  have hsort : Filter.countKey "$orderby" (before ++ ("$query", .object body) :: after) =
      Filter.countKey "$orderby" (before ++ after) := countKey_middle (by simp) before after
  have hquery : Filter.countKey "$query" (before ++ ("$query", .object body) :: after) =
      Filter.countKey "$query" (before ++ after) + 1 := by
    rw [countKey_append, countKey_cons, if_pos rfl, countKey_append, Nat.add_assoc]
  rw [Accepted, SortsOnce, List.forall_mem_cons, hsort, hquery]
  constructor
  · rintro ⟨hone, hmembers, hcount, honce⟩
    have hnone : Filter.countKey "$query" (before ++ after) = 0 := by omega
    rw [hnone] at hmembers
    obtain ⟨hsorts, hbeside, hbodies⟩ := Filter.forall_isOuter_true_iff.1 ⟨hmembers, honce⟩
    refine ⟨⟨hcount, fun v hv => hsorts v ?_⟩, fun member hmember => ?_, ?_⟩
    · exact List.mem_append.2 ((List.mem_append.1 hv).imp_right (List.mem_cons_of_mem _))
    · have hmem : member ∈ before ++ ("$query", .object body) :: after :=
        List.mem_append.2 ((List.mem_append.1 hmember).imp_right (List.mem_cons_of_mem _))
      exact (hbeside member hmem).resolve_left (Filter.countKey_eq_zero_iff.1 hnone member hmember)
    · obtain ⟨body', hbody', hbody⟩ :=
        hbodies (.object body) (List.mem_append_right _ List.mem_cons_self)
      rwa [Json.object.inj hbody']
  · rintro ⟨⟨hcount, hsorts⟩, hbeside, hbody⟩
    have hnone := countKey_query_of_isBeside hbeside
    have hmem {member : String × Json} (h : member ∈ before ++ ("$query", .object body) :: after) :
        member = ("$query", .object body) ∨ member ∈ before ++ after := by
      simpa [or_left_comm] using h
    have hsorts' : ∀ v, ("$orderby", v) ∈ before ++ ("$query", .object body) :: after →
        ∃ spec, SortSpec.read v = .ok spec :=
      fun v hv => hsorts v ((hmem hv).resolve_left (by simp))
    have hbeside' : ∀ member ∈ before ++ ("$query", .object body) :: after,
        member.1 = "$query" ∨ Json.isBeside member.1 :=
      fun member hmember => (hmem hmember).imp (fun h => by rw [h]) (hbeside member)
    have hbody' : ∀ v, ("$query", v) ∈ before ++ ("$query", .object body) :: after →
        ∃ body, v = .object body ∧ Json.IsBody body := by
      intro v hv
      rcases hmem hv with heq | hothers
      · exact ⟨body, (Prod.mk.inj heq).2, hbody⟩
      · exact absurd rfl (Filter.countKey_eq_zero_iff.1 hnone _ hothers)
    obtain ⟨hmembers, honce⟩ := Filter.forall_isOuter_true_iff.2 ⟨hsorts', hbeside', hbody'⟩
    rw [hnone]
    exact ⟨Nat.le_refl _, hmembers, hcount, honce⟩

end Clause

/-- **The accepted documents with their filters.** Neither acceptance nor the contributions of the
members depend on what has been read before. -/
theorem Filter.ofJson_object_eq_ok_iff {members : List (String × Json)} {f : Filter} :
    ofJson (.object members) = .ok f ↔
      Clause.Accepted members ∧
        f = ofClauses ((Clause.unwrapped members).flatMap Clause.contribution) := by
  have haccepted : (∃ f, ofJson (.object members) = .ok f) ↔ Clause.Accepted members := by
    rw [exists_ofJson_iff_exists_readDocument, Clause.Accepted]
    simp only [Json.object.injEq, exists_eq_left', Clause.exists_readDocument_iff,
      Clause.atMostOnce_nil_iff]
  have hfilter {f : Filter} (h : ofJson (.object members) = .ok f) :
      f = ofClauses ((Clause.unwrapped members).flatMap Clause.contribution) := by
    obtain ⟨members', clauses, hmembers, rfl, -, hclauses⟩ := readDocument_of_ofJson h
    obtain rfl := Json.object.inj hmembers
    rw [Clause.eq_flatMap_of_readDocument hclauses]
  constructor
  · exact fun h => ⟨haccepted.1 ⟨f, h⟩, hfilter h⟩
  · rintro ⟨h, rfl⟩
    obtain ⟨f, hf⟩ := haccepted.2 h
    rw [hf, hfilter hf]

end DocFilter
