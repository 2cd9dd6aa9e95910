import DocFilter.Proofs.Expression.Rendition

/-!
# Paths of restrictions and sort orders

The restrictions beside the conditions of a filter, and its sort order, name their values by paths
that stand inside literals of SQL. In an accepted filter all of them can be written, so that no
character of a name ends its literal.

## Main definitions

* `Filter.Writable`: the conditions are well-formed, and all other paths can be written.

## Main results

* `Path.quotable_singleton`: a path to a single value may stand inside a literal.
* `Filter.writable_of_ofJson`: accepted filters can be written.
-/

namespace DocFilter

/-! ### Paths inside literals -/

namespace Path

/-- **A path to a single value may stand inside a literal,** whatever its names are. -/
theorem quotable_singleton {p : Path} (h : p.Writable) (forced : Bool) :
    Quotable (p.singleton forced) := by
  have hstep (s : Step) (hs : s ∈ p.steps.filter fun s => !s.isArray) :
      Quotable ("." ++ s.sqlText ++ if forced then "[0]" else "") := by
    obtain ⟨hs, harray⟩ := List.mem_filter.1 hs
    have hspells := (spells_step (h s hs)).quotable
    rw [Step.dot, if_neg (by simpa using harray)] at hspells
    apply hspells.append
    split
    · exact quotable_of_not_mem (by decide)
    · exact quotable_of_not_mem (by decide)
  have hroot : Quotable "$" := quotable_of_not_mem (by decide)
  apply hroot.append
  generalize p.steps.filter (fun s => !s.isArray) = steps at hstep
  induction steps with
  | nil =>
    have hempty : Quotable "" := quotable_of_not_mem (by decide)
    exact hempty
  | cons s steps ih =>
    obtain ⟨hs, hsteps⟩ := List.forall_mem_cons.1 hstep
    rw [List.map_cons, String.join_cons]
    exact hs.append (ih hsteps)

end Path

theorem ErrorMode.quotable_pathText (mode : ErrorMode) {p : Path} (h : p.Writable) :
    Quotable (mode.pathText p) := by
  cases mode with
  | firstElement => exact p.quotable_singleton h true
  | lax => exact p.quotable_singleton h false
  | scalarRequired => exact p.quotable_singleton h false

theorem SortEntry.quotable_pathText (mode : ErrorMode) {e : SortEntry} (h : e.path.Writable) :
    Quotable (e.pathText mode) := by
  unfold pathText
  split
  · apply (Path.quotable_singleton h false).append
    split
    · exact quotable_of_not_mem (by decide)
    · exact quotable_of_not_mem (by decide)
  · exact mode.quotable_pathText h

/-! ### Comparisons -/

namespace Comparison

variable {path : Path} {key : String} {v : Json}

theorem path_of_ofOperand {returning : Option Modifier} {op : ComparisonOp} {c : Comparison}
    (h : ofOperand path returning op key v = .ok c) : c.path = path := by
  obtain ⟨o, -, hrest⟩ := bind_eq_ok.1 h
  dsimp only at hrest
  split at hrest
  · cases hrest
  · split at hrest
    all_goals
      obtain ⟨o', -, hrest⟩ := bind_eq_ok.1 hrest
      rw [← Except.ok.inj hrest]

theorem path_of_readOperator {returning : Option Modifier} {c : Comparison}
    (h : readOperator path returning key v = .ok c) : c.path = path := by
  unfold readOperator at h
  split at h
  · split at h
    · exact path_of_ofOperand h
    · cases h
  · cases h

theorem path_of_readModified {m : Modifier} {cs : List Comparison}
    (h : readModified path m key v = .ok cs) : ∀ c ∈ cs, c.path = path := by
  unfold readModified at h
  split at h
  · cases h
  · intro c hc
    obtain ⟨member, -, hmember⟩ := exists_of_mem_mapM h hc
    exact path_of_readOperator hmember
  · cases h
  · obtain ⟨c, hc, rfl⟩ := map_eq_ok.1 h
    simpa using path_of_ofOperand hc

theorem path_of_readMember {cs : List Comparison} (h : readMember path key v = .ok cs) :
    ∀ c ∈ cs, c.path = path := by
  unfold readMember at h
  split at h
  · split at h
    · exact path_of_readModified h
    · cases h
  · obtain ⟨c, hc, rfl⟩ := map_eq_ok.1 h
    simpa using path_of_readOperator hc

theorem writable_of_readField {field : String} {cs : List Comparison}
    (h : readField field v = .ok cs) : ∀ c ∈ cs, c.path.Writable := by
  unfold readField at h
  dsimp only at h
  split at h
  · cases h
  · split at h
    · cases h
    · obtain ⟨path, hpath, h⟩ := bind_eq_ok.1 h
      have hwritable := Path.writable_of_ofSingletonText hpath
      split at h
      · cases h
      · obtain ⟨css, hcss, h⟩ := bind_eq_ok.1 h
        obtain rfl := Except.ok.inj h
        intro c hc
        obtain ⟨cs, hcs, hc⟩ := List.mem_flatten.1 hc
        obtain ⟨member, -, hmember⟩ := exists_of_mem_mapM hcss hcs
        rw [path_of_readMember hmember c hc]
        exact hwritable
      · cases h
      · obtain ⟨c, hc, h⟩ := bind_eq_ok.1 h
        obtain rfl := Except.ok.inj h
        simpa [path_of_ofOperand hc] using hwritable

theorem writable_of_readAll {cs : List Comparison} (h : readAll v = .ok cs) :
    ∀ c ∈ cs, c.path.Writable := by
  obtain ⟨members, -, h⟩ := bind_eq_ok.1 h
  obtain ⟨css, hcss, h⟩ := bind_eq_ok.1 h
  obtain rfl := Except.ok.inj h
  intro c hc
  obtain ⟨cs, hcs, hc⟩ := List.mem_flatten.1 hc
  obtain ⟨member, -, hmember⟩ := exists_of_mem_mapM hcss hcs
  exact writable_of_readField hmember c hc

end Comparison

/-! ### Spatial restrictions and text searches -/

theorem Spatial.path_of_read {path : Path} {relation : SpatialRelation} {v : Json} {s : Spatial}
    (h : Spatial.read path relation v = .ok s) : s.path = path := by
  obtain ⟨members, -, h⟩ := bind_eq_ok.1 h
  obtain ⟨d, -, h⟩ := bind_eq_ok.1 h
  dsimp only at h
  split at h
  · split at h
    · cases h
    · obtain ⟨mode, -, h⟩ := bind_eq_ok.1 h
      rw [← Except.ok.inj h]
  · cases h

theorem TextSearch.path_of_read {path : Path} {v : Json} {t : TextSearch}
    (h : TextSearch.read path v = .ok t) : t.path = path := by
  obtain ⟨search, -, h⟩ := bind_eq_ok.1 h
  dsimp only at h
  split at h
  · cases h
  · rw [← Except.ok.inj h]

/-! ### Sort orders -/

namespace SortEntry

/-- Whether the path that has been read of an entry can be written. -/
def Draft.Writable (d : Draft) : Prop :=
  ∀ p ∈ d.path, p.Writable

theorem Draft.Writable.add {d d' : Draft} {key : String} {v : Json} (hd : d.Writable)
    (h : d.add key v = .ok d') : d'.Writable := by
  unfold Draft.add at h
  split_ifs at h
  · obtain ⟨text, -, h⟩ := bind_eq_ok.1 h
    obtain ⟨path, hpath, h⟩ := bind_eq_ok.1 h
    obtain rfl := Except.ok.inj h
    intro p hp
    obtain rfl := Option.some.inj hp
    exact Path.writable_of_ofSingletonText hpath
  · obtain ⟨text, -, h⟩ := bind_eq_ok.1 h
    obtain ⟨datatype, -, h⟩ := bind_eq_ok.1 h
    obtain rfl := Except.ok.inj h
    exact hd
  · obtain ⟨direction, -, rfl⟩ := map_eq_ok.1 h
    exact hd
  · obtain ⟨n, -, rfl⟩ := map_eq_ok.1 h
    exact hd
  · obtain ⟨minMax, -, rfl⟩ := map_eq_ok.1 h
    exact hd

theorem Draft.writable_empty : Draft.Writable {} := by
  intro p h
  cases h

theorem writable_of_read {v : Json} {e : SortEntry} (h : read v = .ok e) : e.path.Writable := by
  obtain ⟨members, -, h⟩ := bind_eq_ok.1 h
  obtain ⟨d, hd, h⟩ := bind_eq_ok.1 h
  have hwritable : d.Writable :=
    foldlM_preserves (fun _ _ _ hd h => hd.add h) Draft.writable_empty hd
  split at h
  · next path hpath =>
    rw [← Except.ok.inj h]
    exact hwritable path hpath
  · cases h

theorem writable_of_readAll {items : List Json} {entries : List SortEntry}
    (h : readAll items = .ok entries) : ∀ e ∈ entries, e.path.Writable := by
  unfold readAll at h
  split at h
  · cases h
  · intro e he
    obtain ⟨v, -, hv⟩ := exists_of_mem_mapM h he
    exact writable_of_read hv

end SortEntry

namespace SortSpec

/-- Whether the paths of the entries that have been read can be written. -/
def Draft.Writable (d : Draft) : Prop :=
  ∀ entries ∈ d.entries, ∀ e ∈ entries, e.path.Writable

theorem Draft.Writable.add {d d' : Draft} {key : String} {v : Json} (hd : d.Writable)
    (h : d.add key v = .ok d') : d'.Writable := by
  unfold Draft.add at h
  split_ifs at h
  · cases h
  · obtain ⟨items, -, h⟩ := bind_eq_ok.1 h
    obtain ⟨entries, hentries, h⟩ := bind_eq_ok.1 h
    obtain rfl := Except.ok.inj h
    intro es hes
    obtain rfl := Option.some.inj hes
    exact SortEntry.writable_of_readAll hentries
  · obtain ⟨lax, -, rfl⟩ := map_eq_ok.1 h
    exact hd
  · obtain ⟨scalarRequired, -, rfl⟩ := map_eq_ok.1 h
    exact hd

theorem Draft.writable_empty : Draft.Writable {} := by
  intro entries h
  cases h

theorem writable_of_readFields {members : List (String × Json)} {spec : SortSpec}
    (h : readFields members = .ok spec) : ∀ e ∈ spec.entries, e.path.Writable := by
  obtain ⟨d, hd, h⟩ := bind_eq_ok.1 h
  obtain ⟨mode, -, h⟩ := bind_eq_ok.1 h
  obtain rfl := Except.ok.inj h
  have hwritable : d.Writable :=
    foldlM_preserves (fun _ _ _ hd h => hd.add h) Draft.writable_empty hd
  cases hentries : d.entries with
  | none => simp
  | some entries => simpa [hentries] using hwritable entries hentries

theorem writable_of_readRank {key : String} {v : Json} {rank : Int × SortEntry}
    (h : readRank key v = .ok rank) : rank.2.path.Writable := by
  unfold readRank at h
  dsimp only at h
  split at h
  · cases h
  · obtain ⟨n, -, h⟩ := bind_eq_ok.1 h
    split at h
    · obtain ⟨path, hpath, h⟩ := bind_eq_ok.1 h
      rw [← Except.ok.inj h]
      exact Path.writable_of_ofSingletonText hpath
    · cases h

theorem writable_of_readRanks {members : List (String × Json)} {spec : SortSpec}
    (h : readRanks members = .ok spec) : ∀ e ∈ spec.entries, e.path.Writable := by
  unfold readRanks at h
  dsimp only at h
  split at h
  · cases h
  · obtain ⟨ranked, hranked, h⟩ := bind_eq_ok.1 h
    rw [← Except.ok.inj h]
    intro e he
    obtain ⟨rank, hrank, rfl⟩ := List.mem_map.1 he
    obtain ⟨member, -, hmember⟩ := exists_of_mem_mapM hranked (List.mem_mergeSort.1 hrank)
    exact writable_of_readRank hmember

theorem writable_of_read {v : Json} {spec : SortSpec} (h : read v = .ok spec) :
    ∀ e ∈ spec.entries, e.path.Writable := by
  unfold read at h
  split at h
  · split at h
    · exact writable_of_readFields h
    · exact writable_of_readRanks h
  · obtain ⟨entries, hentries, rfl⟩ := map_eq_ok.1 h
    exact SortEntry.writable_of_readAll hentries
  · cases h

end SortSpec

/-! ### Filters -/

/-- The conditions of a filter are well-formed, and the paths of its restrictions and of its sort
order can be written. -/
structure Filter.Writable (f : Filter) : Prop where
  conditions : Condition.AllWellFormed f.conditions
  comparisons : ∀ c ∈ f.comparisons, c.path.Writable
  spatial : ∀ s ∈ f.spatial, s.path.Writable
  textSearches : ∀ t ∈ f.textSearches, t.path.Writable
  sort : ∀ spec ∈ f.sort, ∀ e ∈ spec.entries, e.path.Writable

/-- **Accepted filters can be written.** -/
theorem Filter.writable_of_ofJson {d : Json} {f : Filter} (h : Filter.ofJson d = .ok f) :
    f.Writable := by
  have hconditions := Filter.allWellFormed_conditions h
  have hsort (spec : SortSpec) (hspec : f.sort = some spec) :
      ∀ e ∈ spec.entries, e.path.Writable := by
    obtain ⟨v, hv⟩ := Filter.exists_read_of_sort h hspec
    exact SortSpec.writable_of_read hv
  obtain ⟨members, clauses, -, rfl, hreads, -⟩ := Filter.reads_of_ofJson h
  refine ⟨hconditions, ?_, ?_, ?_, hsort⟩
  · intro c hc
    obtain ⟨clause, hmem, hc⟩ := List.mem_flatMap.1 hc
    cases clause with
    | comparisons cs =>
      obtain ⟨member, hmember⟩ := Clause.exists_reads hreads hmem rfl
      cases hmember with
      | comparisons _ hcs => exact Comparison.writable_of_readAll hcs c hc
    | _ => cases hc
  · intro s hs
    obtain ⟨clause, hmem, hs⟩ := List.mem_filterMap.1 hs
    cases clause with
    | spatial s' =>
      obtain rfl := Option.some.inj hs
      obtain ⟨member, hmember⟩ := Clause.exists_reads hreads hmem rfl
      cases hmember with
      | spatial _ hpath _ hread =>
        rw [Spatial.path_of_read hread]
        exact Path.writable_of_ofText hpath
    | _ => cases hs
  · intro t ht
    obtain ⟨clause, hmem, ht⟩ := List.mem_filterMap.1 ht
    cases clause with
    | textSearch t' =>
      obtain rfl := Option.some.inj ht
      obtain ⟨member, hmember⟩ := Clause.exists_reads hreads hmem rfl
      cases hmember with
      | textSearch _ hpath _ hread =>
        rw [TextSearch.path_of_read hread]
        exact Path.writable_of_ofText hpath
    | _ => cases ht

end DocFilter
