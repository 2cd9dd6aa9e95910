import DocFilter.Filter.Basic
import DocFilter.Proofs.Reading.Formulas

/-!
# What reading accepts: documents

The rules for the members of a whole document. Some restrict documents, alone or together under
`$query`; one gives a sort order; the others are passed over.

## Main definitions

* `Clause.Reads`: the accepted members that restrict, and what they contribute.
* `Clause.restricting`: the members of a document that restrict.

## Main results

* `Filter.reads_of_ofJson`: what an accepted document contributes.
* `Filter.exists_read_of_sort`: where the sort order of a filter comes from.
-/

namespace DocFilter

/-! ### Members of a document -/

theorem Keyword.mem_table_of_ofKey? {key : String} {k : Keyword} (h : Keyword.ofKey? key = some k) :
    (key, k) ∈ Keyword.table := by
  obtain ⟨before, after, htable, -⟩ := List.lookup_eq_some_iff.1 h
  rw [htable]
  exact List.mem_append_right _ List.mem_cons_self

namespace Clause

/-- An accepted member that restricts documents, with what it contributes. -/
inductive Reads : String × Json → Clause → Prop
  | formula {member : String × Json} {f : Formula} (hformula : Formula.Reads member f) :
      Reads member (.formula f)
  | keys {key : String} {v : Json} {ks : List Bind} (hkey : Keyword.ofKey? key = some .id)
      (hkeys : readKeys v = .ok ks) : Reads (key, v) (.keys ks)
  | comparisons {key : String} {v : Json} {cs : List Comparison}
      (hkey : Keyword.ofKey? key = some .sqlJson) (hcomparisons : Comparison.readAll v = .ok cs) :
      Reads (key, v) (.comparisons cs)
  | spatial {key operator : String} {operand : Json} {path : Path} {relation : SpatialRelation}
      {s : Spatial} (hkey : Keyword.ofKey? key = none) (hpath : Path.ofText key = .ok path)
      (hoperator : Keyword.ofKey? operator = some (.spatial relation))
      (hspatial : Spatial.read path relation operand = .ok s) :
      Reads (key, .object [(operator, operand)]) (.spatial s)
  | textSearch {key operator : String} {operand : Json} {path : Path} {t : TextSearch}
      (hkey : Keyword.ofKey? key = none) (hpath : Path.ofText key = .ok path)
      (hoperator : Keyword.ofKey? operator = some .contains)
      (htext : TextSearch.read path operand = .ok t) :
      Reads (key, .object [(operator, operand)]) (.textSearch t)

theorem reads_of_readSide? {key : String} {v : Json} {clause : Clause}
    (hkey : Keyword.ofKey? key = none) (h : readSide? key v = some (.ok clause)) :
    Reads (key, v) clause := by
  unfold readSide? at h
  split at h
  · split at h
    · next relation hoperator =>
      obtain ⟨path, hpath, hrest⟩ := bind_eq_ok.1 (Option.some.inj h)
      obtain ⟨s, hs, hrest⟩ := bind_eq_ok.1 hrest
      obtain rfl := Except.ok.inj hrest
      exact .spatial hkey hpath hoperator hs
    · next hoperator =>
      obtain ⟨path, hpath, hrest⟩ := bind_eq_ok.1 (Option.some.inj h)
      obtain ⟨t, ht, hrest⟩ := bind_eq_ok.1 hrest
      obtain rfl := Except.ok.inj hrest
      exact .textSearch hkey hpath hoperator ht
    · cases h
  · cases h

theorem reads_of_read {earlier : List String} {key : String} {v : Json} {clause : Clause}
    (h : read earlier key v = .ok clause) : Reads (key, v) clause := by
  unfold read at h
  split at h
  · next hkey =>
    obtain ⟨-, -, hrest⟩ := bind_eq_ok.1 h
    obtain ⟨ks, hks, hrest⟩ := bind_eq_ok.1 hrest
    obtain rfl := Except.ok.inj hrest
    exact .keys hkey hks
  · next hkey =>
    obtain ⟨-, -, hrest⟩ := bind_eq_ok.1 h
    obtain ⟨cs, hcs, hrest⟩ := bind_eq_ok.1 hrest
    obtain rfl := Except.ok.inj hrest
    exact .comparisons hkey hcs
  · obtain ⟨f, hf, rfl⟩ := map_eq_ok.1 h
    exact .formula (Formula.reads_of_read key v hf)
  · next hkey =>
    split at h
    · cases h
    · cases hside : readSide? key v with
      | some outcome =>
        rw [hside, Option.getD_some] at h
        exact reads_of_readSide? hkey (hside.trans (congrArg some h))
      | none =>
        rw [hside, Option.getD_none] at h
        obtain ⟨f, hf, rfl⟩ := map_eq_ok.1 h
        exact .formula (Formula.reads_of_read key v hf)

/-- The members of a document that restrict: those under `$query`, and of the others those that
neither give a sort order nor are passed over. -/
def restricting (members : List (String × Json)) : List (String × Json) :=
  members.flatMap fun (key, v) =>
    match Keyword.ofKey? key, v with
    | some .query, .object body => body
    | some .query, _ => []
    | some .orderBy, _ => []
    | some .envelope, _ => []
    | _, v => [(key, v)]

/-- Whether a contribution restricts documents. -/
def restricts : Clause → Bool
  | sort _ => false
  | _ => true

theorem Reads.restricts {member : String × Json} {clause : Clause} (h : Reads member clause) :
    clause.restricts = true := by
  cases h <;> rfl

theorem expectMembers_eq_ok {key : String} {v : Json} {members : List (String × Json)}
    (h : v.expectMembers key = .ok members) : v = .object members := by
  cases v <;> simp only [Json.expectMembers, Except.ok.injEq, reduceCtorEq] at h
  rw [h]

theorem reads_of_readBody {earlier : List String} :
    {members : List (String × Json)} → {clauses : List Clause} →
      readBody earlier members = .ok clauses → List.Forall₂ Reads members clauses
  | [], clauses, h => by
      obtain rfl := Except.ok.inj h
      exact .nil
  | (key, v) :: members, clauses, h => by
      obtain ⟨clause, hclause, hrest⟩ := bind_eq_ok.1 h
      obtain ⟨clauses', hclauses, hrest⟩ := bind_eq_ok.1 hrest
      obtain rfl := Except.ok.inj hrest
      exact .cons (reads_of_read hclause) (reads_of_readBody hclauses)

/-- The accepted members of a document, and what they contribute. -/
inductive ReadsOuter (hasQuery : Bool) (earlier : List String) : String × Json → List Clause → Prop
  | query {key : String} {body : List (String × Json)} {clauses : List Clause}
      (hkey : Keyword.ofKey? key = some .query) (hbody : readBody [] body = .ok clauses) :
      ReadsOuter hasQuery earlier (key, .object body) clauses
  | sort {key : String} {v : Json} {spec : SortSpec} (hkey : Keyword.ofKey? key = some .orderBy)
      (hsort : SortSpec.read v = .ok spec) : ReadsOuter hasQuery earlier (key, v) [.sort spec]
  | envelope {key : String} {v : Json} (hkey : Keyword.ofKey? key = some .envelope) :
      ReadsOuter hasQuery earlier (key, v) []
  | restriction {key : String} {v : Json} {clause : Clause} (hquery : hasQuery = false)
      (hkey : Keyword.ofKey? key ≠ some .query ∧ Keyword.ofKey? key ≠ some .orderBy ∧
        Keyword.ofKey? key ≠ some .envelope)
      (hclause : read earlier key v = .ok clause) : ReadsOuter hasQuery earlier (key, v) [clause]

theorem readsOuter_of_readOuter {hasQuery : Bool} {earlier : List String} {key : String} {v : Json}
    {clauses : List Clause} (h : readOuter hasQuery earlier key v = .ok clauses) :
    ReadsOuter hasQuery earlier (key, v) clauses := by
  unfold readOuter at h
  split at h
  · next hkey =>
    obtain ⟨body, hbody, h⟩ := bind_eq_ok.1 h
    obtain rfl := expectMembers_eq_ok hbody
    exact .query hkey h
  · next hkey =>
    obtain ⟨-, -, h⟩ := bind_eq_ok.1 h
    obtain ⟨spec, hsort, h⟩ := bind_eq_ok.1 h
    obtain rfl := Except.ok.inj h
    exact .sort hkey hsort
  · next hkey =>
    obtain rfl := Except.ok.inj h
    exact .envelope hkey
  · next hquery horder henvelope =>
    split at h
    · cases h
    · next hno =>
      obtain ⟨clause, hclause, rfl⟩ := map_eq_ok.1 h
      exact .restriction (Bool.eq_false_iff.2 hno) ⟨hquery, horder, henvelope⟩ hclause

/-- The restricting members among one member and the others. -/
theorem restricting_cons {key : String} {v : Json} (members : List (String × Json)) :
    restricting ((key, v) :: members) = restricting [(key, v)] ++ restricting members := by
  simp [restricting]

theorem ReadsOuter.reads {hasQuery : Bool} {earlier : List String} {key : String} {v : Json}
    {clauses : List Clause} (h : ReadsOuter hasQuery earlier (key, v) clauses) :
    List.Forall₂ Reads (restricting [(key, v)]) (clauses.filter restricts) := by
  rw [restricting, List.flatMap_singleton]
  cases h with
  | query hkey hbody =>
    have hreads := reads_of_readBody hbody
    have hall : ∀ clause ∈ clauses, clause.restricts = true := fun clause hclause =>
      (exists_mem_of_forall₂ hreads hclause).elim fun _ h => h.2.restricts
    rw [List.filter_eq_self.2 hall]
    simpa only [hkey] using hreads
  | sort hkey _ => simpa only [hkey] using .nil
  | envelope hkey => simpa only [hkey] using .nil
  | restriction _ hkey hclause =>
    have hreads := reads_of_read hclause
    rw [List.filter_cons_of_pos hreads.restricts]
    dsimp only
    split
    · exact absurd ‹_› hkey.1
    · exact absurd ‹_› hkey.1
    · exact absurd ‹_› hkey.2.1
    · exact absurd ‹_› hkey.2.2
    · exact .cons hreads .nil

/-- **The restricting members of an accepted document make the restricting contributions, one each
and in order.** -/
theorem reads_of_readDocument {hasQuery : Bool} {earlier : List String} :
    {members : List (String × Json)} → {clauses : List Clause} →
      readDocument hasQuery earlier members = .ok clauses →
      List.Forall₂ Reads (restricting members) (clauses.filter restricts)
  | [], clauses, h => by
      obtain rfl := Except.ok.inj h
      exact .nil
  | (key, v) :: members, clauses, h => by
      obtain ⟨own, hown, hrest⟩ := bind_eq_ok.1 h
      obtain ⟨others, hothers, hrest⟩ := bind_eq_ok.1 hrest
      obtain rfl := Except.ok.inj hrest
      rw [restricting_cons, List.filter_append]
      exact List.rel_append (readsOuter_of_readOuter hown).reads (reads_of_readDocument hothers)

/-- Every restricting contribution comes from a member. -/
theorem exists_reads {members : List (String × Json)} {clauses : List Clause}
    (h : List.Forall₂ Reads (restricting members) (clauses.filter restricts)) {clause : Clause}
    (hmem : clause ∈ clauses) (hrestricts : clause.restricts = true) :
    ∃ member, Reads member clause := by
  obtain ⟨member, -, hmember⟩ := exists_mem_of_forall₂ h (List.mem_filter.2 ⟨hmem, hrestricts⟩)
  exact ⟨member, hmember⟩

/-- A sort order among the contributions has been read. -/
theorem exists_read_of_sort_mem {hasQuery : Bool} {spec : SortSpec} {earlier : List String} :
    {members : List (String × Json)} → {clauses : List Clause} →
      readDocument hasQuery earlier members = .ok clauses → sort spec ∈ clauses →
      ∃ v, SortSpec.read v = .ok spec
  | [], clauses, h, hmem => by
      obtain rfl := Except.ok.inj h
      cases hmem
  | (key, v) :: members, clauses, h, hmem => by
      obtain ⟨own, hown, hrest⟩ := bind_eq_ok.1 h
      obtain ⟨others, hothers, hrest⟩ := bind_eq_ok.1 hrest
      obtain rfl := Except.ok.inj hrest
      rcases List.mem_append.1 hmem with hmem | hmem
      · cases readsOuter_of_readOuter hown with
        | query _ hbody =>
          obtain ⟨member, -, hreads⟩ := exists_mem_of_forall₂ (reads_of_readBody hbody) hmem
          cases hreads
        | sort _ hsort =>
          obtain rfl := sort.inj (List.mem_singleton.1 hmem)
          exact ⟨v, hsort⟩
        | envelope _ => cases hmem
        | restriction _ _ hclause =>
          rw [← List.mem_singleton.1 hmem] at hclause
          cases reads_of_read hclause
      · exact exists_read_of_sort_mem hothers hmem

/-- The keys that a contribution restricts to, if it does. -/
def keys? : Clause → Option (List Bind)
  | keys ks => some ks
  | _ => none

theorem flatMap_keysOf (clauses : List Clause) :
    clauses.flatMap keysOf = (clauses.filterMap keys?).flatten := by
  induction clauses with
  | nil => rfl
  | cons clause clauses ih => cases clause <;> simp [keysOf, keys?, List.filterMap_cons, ih]

theorem keys?_of_reads {earlier : List String} {key : String} {v : Json} {clause : Clause}
    (h : read earlier key v = .ok clause) (hkeys : clause.keys? ≠ none) :
    key = "$id" ∧ "$id" ∉ earlier := by
  have hreads := reads_of_read h
  cases hreads with
  | keys hkey _ =>
    obtain rfl : key = "$id" := by simpa [Keyword.table] using Keyword.mem_table_of_ofKey? hkey
    refine ⟨rfl, fun hmem => ?_⟩
    unfold read at h
    rw [hkey] at h
    obtain ⟨u, honce, -⟩ := bind_eq_ok.1 h
    unfold once at honce
    rw [if_pos hmem] at honce
    cases honce
  | _ => exact absurd rfl hkeys

/-- How often `$id` may still be read behind the keys `earlier`. -/
def allowance (earlier : List String) : Nat :=
  if "$id" ∈ earlier then 0 else 1

theorem allowance_cons_le (key : String) (earlier : List String) :
    allowance (key :: earlier) ≤ allowance earlier := by
  unfold allowance
  split_ifs with hcons hmem hmem
  · exact Nat.le_refl _
  · exact Nat.zero_le _
  · exact absurd (List.mem_cons_of_mem _ hmem) hcons
  · exact Nat.le_refl _

/-- A member that gives keys uses the allowance up. -/
theorem length_keys_of_read {earlier : List String} {key : String} {v : Json} {clause : Clause}
    (h : read earlier key v = .ok clause) :
    ([clause].filterMap keys?).length + allowance (key :: earlier) ≤ allowance earlier := by
  by_cases hkeys : clause.keys? = none
  · rw [List.filterMap_cons_none hkeys, List.filterMap_nil, List.length_nil, Nat.zero_add]
    exact allowance_cons_le key earlier
  · obtain ⟨rfl, hmem⟩ := keys?_of_reads h hkeys
    obtain ⟨ks, hks⟩ := Option.ne_none_iff_exists'.1 hkeys
    rw [List.filterMap_cons_some hks, allowance, allowance, if_pos List.mem_cons_self, if_neg hmem]
    exact Nat.le_refl _

/-- `$id` is read once at most. -/
theorem length_keys_of_readBody {earlier : List String} :
    {members : List (String × Json)} → {clauses : List Clause} →
      readBody earlier members = .ok clauses →
      (clauses.filterMap keys?).length ≤ allowance earlier
  | [], clauses, h => by
      obtain rfl := Except.ok.inj h
      exact Nat.zero_le _
  | (key, v) :: members, clauses, h => by
      obtain ⟨clause, hclause, hrest⟩ := bind_eq_ok.1 h
      obtain ⟨others, hothers, hrest⟩ := bind_eq_ok.1 hrest
      obtain rfl := Except.ok.inj hrest
      have hown := length_keys_of_read hclause
      have hlength := length_keys_of_readBody hothers
      rw [← List.singleton_append, List.filterMap_append, List.length_append]
      omega

theorem distinctKeys_ne_nil {ks : List Bind} (h : ks ≠ []) : distinctKeys ks ≠ [] := by
  have hfold (ks seen : List Bind) (hseen : seen ≠ []) :
      ks.foldl (fun seen key => if key ∈ seen then seen else seen ++ [key]) seen ≠ [] := by
    induction ks generalizing seen with
    | nil => exact hseen
    | cons k ks ih =>
      rw [List.foldl_cons]
      apply ih
      split_ifs
      · exact hseen
      · exact List.append_ne_nil_of_right_ne_nil _ (List.cons_ne_nil _ _)
  obtain ⟨k, ks, rfl⟩ := List.exists_cons_of_ne_nil h
  rw [distinctKeys, List.foldl_cons]
  exact hfold ks _ (by simp)

theorem readKeys_ne_nil {v : Json} {ks : List Bind} (h : readKeys v = .ok ks) : ks ≠ [] := by
  unfold readKeys at h
  split at h
  · cases h
  · next items hne =>
    obtain ⟨keys, hkeys, rfl⟩ := map_eq_ok.1 h
    apply distinctKeys_ne_nil
    rintro rfl
    exact hne (List.forall₂_nil_right_iff.1 (mapM_eq_ok.1 hkeys))
  · obtain ⟨k, -, rfl⟩ := map_eq_ok.1 h
    exact List.cons_ne_nil _ _

theorem countKey_cons (key : String) (member : String × Json) (members : List (String × Json)) :
    Filter.countKey key (member :: members) =
      Filter.countKey key members + if member.1 = key then 1 else 0 := by
  simp [Filter.countKey, List.countP_cons]

/-- `$id` is read once at most in a document: there is one `$query` and no `$id` beside it, or no
`$query`. -/
theorem length_keys_of_readDocument {hasQuery : Bool} {earlier : List String} :
    {members : List (String × Json)} → {clauses : List Clause} →
      (hasQuery = false → Filter.countKey "$query" members = 0) →
      readDocument hasQuery earlier members = .ok clauses →
      (clauses.filterMap keys?).length ≤
        if hasQuery then Filter.countKey "$query" members else allowance earlier
  | [], clauses, _, h => by
      obtain rfl := Except.ok.inj h
      exact Nat.zero_le _
  | (key, v) :: members, clauses, hcount, h => by
      obtain ⟨own, hown, hrest⟩ := bind_eq_ok.1 h
      obtain ⟨others, hothers, hrest⟩ := bind_eq_ok.1 hrest
      obtain rfl := Except.ok.inj hrest
      rw [countKey_cons] at hcount ⊢
      have hlength := length_keys_of_readDocument (fun hno => by have := hcount hno; omega) hothers
      have hallowance := allowance_cons_le key earlier
      rw [List.filterMap_append, List.length_append]
      cases readsOuter_of_readOuter hown with
      | query hkey hbody =>
        obtain rfl : key = "$query" := by
          simpa [Keyword.table] using Keyword.mem_table_of_ofKey? hkey
        have hkeys : (own.filterMap keys?).length ≤ 1 := length_keys_of_readBody hbody
        cases hasQuery with
        | false => simp at hcount
        | true =>
          simp only [if_true] at hlength ⊢
          omega
      | sort =>
        rw [List.filterMap_cons_none rfl, List.filterMap_nil, List.length_nil]
        split_ifs at hlength ⊢ <;> omega
      | envelope =>
        rw [List.filterMap_nil, List.length_nil]
        split_ifs at hlength ⊢ <;> omega
      | restriction hquery _ hclause =>
        have hkeys := length_keys_of_read hclause
        rw [hquery] at hlength ⊢
        simp only [Bool.false_eq_true, if_false] at hlength ⊢
        omega

end Clause

namespace Filter

theorem readDocument_of_ofJson {d : Json} {f : Filter} (h : ofJson d = .ok f) :
    ∃ members clauses, d = .object members ∧ f = ofClauses clauses ∧
      countKey "$query" members ≤ 1 ∧
      Clause.readDocument (countKey "$query" members = 1) [] members = .ok clauses := by
  obtain ⟨members, hmembers, hrest⟩ := bind_eq_ok.1 h
  dsimp only at hrest
  split at hrest
  · cases hrest
  · next hqueries =>
    obtain ⟨clauses, hclauses, hrest⟩ := bind_eq_ok.1 hrest
    obtain rfl := Except.ok.inj hrest
    exact ⟨members, clauses, Clause.expectMembers_eq_ok hmembers, rfl, Nat.le_of_not_lt hqueries,
      hclauses⟩

/-- **What an accepted document contributes.** -/
theorem reads_of_ofJson {d : Json} {f : Filter} (h : ofJson d = .ok f) :
    ∃ members clauses, d = .object members ∧ f = ofClauses clauses ∧
      List.Forall₂ Clause.Reads (Clause.restricting members) (clauses.filter Clause.restricts) ∧
      (clauses.filterMap Clause.keys?).length ≤ 1 := by
  obtain ⟨members, clauses, hd, hf, hqueries, hclauses⟩ := readDocument_of_ofJson h
  refine ⟨members, clauses, hd, hf, Clause.reads_of_readDocument hclauses, ?_⟩
  have hlength := Clause.length_keys_of_readDocument
    (by simp only [decide_eq_false_iff_not]; omega) hclauses
  refine Nat.le_trans hlength ?_
  split_ifs
  · exact hqueries
  · exact Nat.le_refl 1

/-- A member of an accepted document gives the sort order. -/
theorem exists_read_of_sort {d : Json} {f : Filter} {spec : SortSpec} (h : ofJson d = .ok f)
    (hsort : f.sort = some spec) : ∃ v, SortSpec.read v = .ok spec := by
  obtain ⟨members, clauses, -, rfl, -, hclauses⟩ := readDocument_of_ofJson h
  obtain ⟨clause, hmem, hclause⟩ := List.exists_of_findSome?_eq_some hsort
  cases clause with
  | sort s =>
    obtain rfl := Option.some.inj hclause
    exact Clause.exists_read_of_sort_mem hclauses hmem
  | _ => cases hclause

end Filter

end DocFilter
