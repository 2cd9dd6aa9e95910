import DocFilter.Proofs.Acceptance.Tests
import DocFilter.Sort.Reader
import Mathlib.Algebra.Ring.Int.Defs

/-!
# Ranks of sort orders

The map form of a sort order is a stable sort of its members by the magnitude of their ranks. The
sorted members can as well be listed as the items of an array, each with its path and its rank as
order. The reader of items is another one, with its own rule for numbers, but it gives the same
entries.

## Main definitions

* `Json.IsRank`, `Json.magnitude`: the rank that a document is, and the place that it gives.
* `SortEntry.OfMember`: the entry that a member of the map form stands for.
* `SortSpec.Ranking`: a sort order given by sorted members.
* `SortSpec.item`: a member of the map form as an item of the list form.

## Main results

* `filter_mergeSort`: a merge sort by a measure keeps the order of elements of equal measure.
* `SortEntry.read_item`: an item gives the entry of its member.
* `SortSpec.read_object_ranking`: the map form is a stable sort, and agrees with the list form.
-/

namespace DocFilter

/-! ### Stable sorts by a measure -/

section Measure

variable {α : Type} (measure : α → Nat)

theorem pairwise_mergeSort_measure (as : List α) :
    (as.mergeSort fun a b => measure a ≤ measure b).Pairwise fun a b => measure a ≤ measure b := by
  have hsorted : (as.mergeSort fun a b => measure a ≤ measure b).Pairwise
      fun a b => decide (measure a ≤ measure b) :=
    List.pairwise_mergeSort (fun a b c => by simpa using Nat.le_trans)
      (fun a b => by simpa using Nat.le_total _ _) as
  exact hsorted.imp of_decide_eq_true

/-- **A merge sort is stable**: the elements of one measure keep their order. -/
theorem filter_mergeSort (as : List α) (k : Nat) :
    (as.mergeSort fun a b => measure a ≤ measure b).filter (measure · = k) =
      as.filter (measure · = k) := by
  have hpairwise :
      (as.filter (measure · = k)).Pairwise fun a b => decide (measure a ≤ measure b) := by
    refine List.pairwise_of_forall_mem_list fun a ha b hb => ?_
    have ha := of_decide_eq_true (List.mem_filter.1 ha).2
    have hb := of_decide_eq_true (List.mem_filter.1 hb).2
    exact decide_eq_true (by omega)
  -- elements of one measure are sorted as they are, so the sort leaves them in this order
  have hsublist := List.sublist_mergeSort (fun a b c => by simpa using Nat.le_trans)
    (fun a b => by simpa using Nat.le_total _ _) hpairwise List.filter_sublist
  have hfilter := hsublist.filter (measure · = k)
  rw [List.filter_filter] at hfilter
  simp only [Bool.and_self] at hfilter
  exact (hfilter.eq_of_length ((List.mergeSort_perm _ _).filter _).length_eq.symm).symm

end Measure

/-- A reader that keeps an order can be applied before or after the sort. -/
theorem mapM_mergeSort {ε α β : Type} {f : α → Except ε β} {le : α → α → Bool} {le' : β → β → Bool}
    (hle : ∀ a b x y, f a = .ok x → f b = .ok y → le a b = le' x y) {as : List α} {bs : List β}
    (h : as.mapM f = .ok bs) : (as.mergeSort le).mapM f = .ok (bs.mergeSort le') := by
  obtain ⟨hlength, hpairs⟩ := List.forall₂_iff_zip.1 (mapM_eq_ok.1 h)
  -- both lists are sides of one list of pairs, which is sorted in their place
  have hleft := List.map_mergeSort (f := Prod.fst) (l := as.zip bs) (s := le)
    (r := fun p q => le p.1 q.1) fun _ _ _ _ => rfl
  have hright := List.map_mergeSort (f := Prod.snd) (l := as.zip bs) (s := le')
    (r := fun p q => le p.1 q.1) fun p hp q hq => hle _ _ _ _ (hpairs hp) (hpairs hq)
  rw [List.map_fst_zip (Nat.le_of_eq hlength)] at hleft
  rw [List.map_snd_zip (Nat.le_of_eq hlength.symm)] at hright
  rw [mapM_eq_ok, ← hleft, ← hright, List.forall₂_map_left_iff, List.forall₂_map_right_iff,
    List.forall₂_same]
  exact fun p hp => hpairs (List.mem_mergeSort.1 hp)

/-! ### Ranks -/

namespace Json

/-- Whether a document is the rank: an integer of 64 bits with its sign, and not zero. -/
def IsRank (v : Json) (rank : Int) : Prop :=
  ∃ n, v = .number n ∧ n.toInt? = some rank ∧ rank ≠ 0 ∧ -2 ^ 63 ≤ rank ∧ rank < 2 ^ 63

/-- The magnitude of an integer; other documents have none. -/
def magnitude : Json → Nat
  | number n => (n.toInt?.getD 0).natAbs
  | _ => 0

theorem IsRank.magnitude_eq {v : Json} {rank : Int} (h : v.IsRank rank) :
    v.magnitude = rank.natAbs := by
  obtain ⟨n, rfl, hn, -⟩ := h
  rw [magnitude, hn, Option.getD_some]

end Json

theorem Numeral.toInt64?_ne_zero_iff {n : Numeral} {rank : Int} :
    n.toInt64?.filter (· ≠ 0) = some rank ↔ (Json.number n).IsRank rank := by
  simp only [toInt64?, Option.filter_eq_some_iff, Bool.and_eq_true, decide_eq_true_eq, Json.IsRank]
  constructor
  · rintro ⟨⟨hn, hlower, hupper⟩, hzero⟩
    exact ⟨n, rfl, hn, hzero, by omega, by omega⟩
  · rintro ⟨_, ⟨⟩, hn, hzero, hlower, hupper⟩
    exact ⟨⟨hn, by omega, by omega⟩, hzero⟩

/-- The order of an item is the sign of its rank. -/
theorem Direction.read_of_isRank {v : Json} {rank : Int} (h : v.IsRank rank) :
    Direction.read v = .ok (.ofRank rank) := by
  obtain ⟨n, rfl, -⟩ := id h
  rw [Direction.read, Numeral.toInt64?_ne_zero_iff.2 h]

namespace SortEntry

/-- The entry that a member of the map form stands for. Its key is the path, and it is descending
exactly if its rank is negative. -/
def OfMember (m : String × Json) (e : SortEntry) : Prop :=
  ∃ path rank, Path.ofSingletonText m.1 = .ok path ∧ m.2.IsRank rank ∧
    e = .simple path (if rank < 0 then .descending else .ascending)

end SortEntry

namespace SortSpec

/-- **What the map form takes for a member**: any integer of 64 bits other than zero, under a path
to one value. -/
theorem readRank_eq_ok_iff {key : String} {v : Json} {ranked : Int × SortEntry} :
    readRank key v = .ok ranked ↔
      isDollarKey key = false ∧ v.IsRank ranked.1 ∧
        ∃ path, Path.ofSingletonText key = .ok path ∧
          ranked.2 = .simple path (.ofRank ranked.1) := by
  unfold readRank
  dsimp only
  split
  · next hdollar => exact iff_of_false nofun fun h => absurd (h.1.symm.trans hdollar) nofun
  · next hdollar =>
    rw [bind_eq_ok, Bool.not_eq_true] at *
    constructor
    · rintro ⟨n, hn, h⟩
      obtain rfl : v = .number n := by cases v <;> cases hn; rfl
      split at h
      · next rank hrank =>
        obtain ⟨path, hpath, h⟩ := bind_eq_ok.1 h
        obtain rfl := Except.ok.inj h
        exact ⟨hdollar, Numeral.toInt64?_ne_zero_iff.1 hrank, path, hpath, rfl⟩
      · cases h
    · rintro ⟨-, hrank, path, hpath, hentry⟩
      obtain ⟨n, rfl, -⟩ := id hrank
      refine ⟨n, rfl, ?_⟩
      rw [Numeral.toInt64?_ne_zero_iff.2 hrank]
      exact bind_eq_ok.2 ⟨path, hpath, congrArg Except.ok (Prod.ext rfl hentry.symm)⟩

/-- A member of the map form as an item of the list form. -/
def item (m : String × Json) : Json :=
  .object [("path", .string m.1), ("order", m.2)]

end SortSpec

/-- **An item gives the entry of its member.** -/
theorem SortEntry.read_item {m : String × Json} {path : Path} {rank : Int}
    (hpath : Path.ofSingletonText m.1 = .ok path) (hrank : m.2.IsRank rank) :
    SortEntry.read (SortSpec.item m) = .ok (.simple path (.ofRank rank)) := by
  have hfirst : Draft.add {} "path" (.string m.1) = .ok { path := some path } := by
    simp [Draft.add, Json.expectString, hpath, bind, Except.bind, pure, Except.pure]
  have hsecond : Draft.add { path := some path } "order" m.2 =
      .ok { path := some path, direction := .ofRank rank } := by
    simp [Draft.add, Direction.read_of_isRank hrank, Except.map]
  rw [read, SortSpec.item, Json.expectMembers]
  simp only [bind, Except.bind, List.foldlM_cons, hfirst, hsecond]
  rfl

namespace SortSpec

/-- The sort order that members of the map form give when they are sorted: by the magnitude of their
ranks, where members of one magnitude stay in the order of the document. -/
structure Ranking (members sorted : List (String × Json)) (spec : SortSpec) : Prop where
  perm : sorted.Perm members
  pairwise : sorted.Pairwise fun a b => a.2.magnitude ≤ b.2.magnitude
  stable : ∀ k, sorted.filter (fun m => m.2.magnitude = k) =
    members.filter fun m => m.2.magnitude = k
  entries : List.Forall₂ SortEntry.OfMember sorted spec.entries
  mode : spec.mode = .firstElement

theorem read_object_of_forall_ne {members : List (String × Json)}
    (hmap : ∀ m ∈ members, m.1 ≠ "$fields") : read (.object members) = readRanks members := by
  rw [read, if_neg]
  intro h
  obtain ⟨m, hmem, hkey⟩ := List.any_eq_true.1 h
  exact hmap m hmem (of_decide_eq_true hkey)

theorem readRanks_eq_ok_iff {members : List (String × Json)} {spec : SortSpec} :
    readRanks members = .ok spec ↔
      members ≠ [] ∧ ∃ ranked, members.mapM (fun m => readRank m.1 m.2) = .ok ranked ∧
        spec = ⟨(byMagnitude ranked).map Prod.snd, .firstElement⟩ := by
  unfold readRanks
  dsimp only
  split
  · next hempty => exact iff_of_false nofun fun h => h.1 (List.isEmpty_iff.1 hempty)
  · next hempty =>
    rw [bind_eq_ok]
    constructor
    · rintro ⟨ranked, hranked, h⟩
      exact ⟨fun hnil => hempty (List.isEmpty_iff.2 hnil), ranked, hranked, (Except.ok.inj h).symm⟩
    · rintro ⟨-, ranked, hranked, rfl⟩
      exact ⟨ranked, hranked, rfl⟩

/-- The ranks of the members in the order of their magnitudes. -/
theorem mapM_readRank_sorted {members : List (String × Json)} {ranked : List (Int × SortEntry)}
    (h : members.mapM (fun m => readRank m.1 m.2) = .ok ranked) :
    (members.mergeSort fun a b => a.2.magnitude ≤ b.2.magnitude).mapM
      (fun m => readRank m.1 m.2) = .ok (byMagnitude ranked) := by
  refine mapM_mergeSort (fun a b x y hx hy => ?_) h
  rw [(readRank_eq_ok_iff.1 hx).2.1.magnitude_eq, (readRank_eq_ok_iff.1 hy).2.1.magnitude_eq]

/-- The list form of members whose ranks are read. -/
theorem read_array_items {members : List (String × Json)} {ranked : List (Int × SortEntry)}
    (hne : members ≠ []) (h : members.mapM (fun m => readRank m.1 m.2) = .ok ranked) :
    read (.array (members.map item)) = .ok ⟨ranked.map Prod.snd, .firstElement⟩ := by
  have hentries : (members.map item).mapM SortEntry.read = .ok (ranked.map Prod.snd) := by
    rw [mapM_eq_ok, List.forall₂_map_left_iff, List.forall₂_map_right_iff]
    refine (mapM_eq_ok.1 h).imp fun m x hx => ?_
    obtain ⟨-, hrank, path, hpath, hentry⟩ := readRank_eq_ok_iff.1 hx
    rw [hentry]
    exact SortEntry.read_item hpath hrank
  rw [read, SortEntry.readAll, if_neg (by simpa using hne), hentries]
  rfl

theorem exists_readRank_iff {m : String × Json} :
    (∃ ranked, readRank m.1 m.2 = .ok ranked) ↔ isDollarKey m.1 = false ∧
      (∃ path, Path.ofSingletonText m.1 = .ok path) ∧ ∃ rank, m.2.IsRank rank := by
  simp only [readRank_eq_ok_iff, Prod.exists]
  constructor
  · rintro ⟨rank, e, hdollar, hrank, path, hpath, -⟩
    exact ⟨hdollar, ⟨path, hpath⟩, rank, hrank⟩
  · rintro ⟨hdollar, ⟨path, hpath⟩, rank, hrank⟩
    exact ⟨rank, _, hdollar, hrank, path, hpath, rfl⟩

theorem exists_readRanks_iff {members : List (String × Json)} :
    (∃ spec, readRanks members = .ok spec) ↔
      members ≠ [] ∧ ∀ m ∈ members, isDollarKey m.1 = false ∧
        (∃ path, Path.ofSingletonText m.1 = .ok path) ∧ ∃ rank, m.2.IsRank rank := by
  simp only [← exists_readRank_iff, ← exists_mapM_eq_ok, readRanks_eq_ok_iff]
  constructor
  · rintro ⟨spec, hne, ranked, hranked, -⟩
    exact ⟨hne, ranked, hranked⟩
  · rintro ⟨hne, ranked, hranked⟩
    exact ⟨_, hne, ranked, hranked, rfl⟩

/-- The members by the magnitude of their ranks give the sort order that is read from them. -/
theorem ranking_mergeSort {members : List (String × Json)} {ranked : List (Int × SortEntry)}
    (h : members.mapM (fun m => readRank m.1 m.2) = .ok ranked) :
    Ranking members (members.mergeSort fun a b => a.2.magnitude ≤ b.2.magnitude)
      ⟨(byMagnitude ranked).map Prod.snd, .firstElement⟩ where
  perm := List.mergeSort_perm members _
  pairwise := pairwise_mergeSort_measure _ members
  stable := filter_mergeSort _ members
  entries := by
    rw [List.forall₂_map_right_iff]
    refine (mapM_eq_ok.1 (mapM_readRank_sorted h)).imp fun m x hx => ?_
    obtain ⟨-, hrank, path, hpath, hentry⟩ := readRank_eq_ok_iff.1 hx
    exact ⟨path, x.1, hpath, hrank, hentry⟩
  mode := rfl

/-- **The map form is a stable sort by the magnitude of ranks, and agrees with the list form.** It
accepts every rank of 64 bits except zero, under every path to one value that starts with no
dollar sign. -/
theorem read_object_ranking (members : List (String × Json))
    (hmap : ∀ m ∈ members, m.1 ≠ "$fields") :
    ((∃ spec, read (.object members) = .ok spec) ↔
      members ≠ [] ∧ ∀ m ∈ members, isDollarKey m.1 = false ∧
        (∃ path, Path.ofSingletonText m.1 = .ok path) ∧ ∃ rank, m.2.IsRank rank) ∧
    ∀ spec, read (.object members) = .ok spec →
      ∃ sorted, Ranking members sorted spec ∧ read (.array (sorted.map item)) = .ok spec := by
  rw [read_object_of_forall_ne hmap]
  refine ⟨exists_readRanks_iff, fun spec h => ?_⟩
  obtain ⟨hne, ranked, hranked, rfl⟩ := readRanks_eq_ok_iff.1 h
  have hranking := ranking_mergeSort hranked
  have hsorted : members.mergeSort (fun a b => a.2.magnitude ≤ b.2.magnitude) ≠ [] :=
    fun hnil => hne (List.Perm.eq_nil (hnil ▸ hranking.perm.symm))
  exact ⟨_, hranking, read_array_items hsorted (mapM_readRank_sorted hranked)⟩

/-- The least integer of 64 bits comes last, and two members of opposite ranks stay as they are. -/
theorem read_object_ranking_ties :
    ∃ members sorted spec,
      members = [("a", Json.number (.ofInt (-2 ^ 63))), ("b", .number (.ofInt (-2))),
        ("c", .number (.ofInt 2)), ("d", .number (.ofInt (2 ^ 63 - 1)))] ∧
      read (.object members) = .ok spec ∧ Ranking members sorted spec ∧
      read (.array (sorted.map item)) = .ok spec ∧
      spec.entries.map (fun e => (e.path.steps, e.direction)) =
        [([.named "b"], .descending), ([.named "c"], .ascending), ([.named "d"], .ascending),
          ([.named "a"], .descending)] := by
  have hread : read (.object [("a", Json.number (.ofInt (-2 ^ 63))), ("b", .number (.ofInt (-2))),
      ("c", .number (.ofInt 2)), ("d", .number (.ofInt (2 ^ 63 - 1)))]) =
      .ok ⟨[.simple ⟨[.named "b"]⟩ .descending, .simple ⟨[.named "c"]⟩ .ascending,
        .simple ⟨[.named "d"]⟩ .ascending, .simple ⟨[.named "a"]⟩ .descending],
        .firstElement⟩ := by
    rw [read_object_of_forall_ne (by decide), readRanks_eq_ok_iff]
    refine ⟨by decide, [(-2 ^ 63, .simple ⟨[.named "a"]⟩ .descending),
      (-2, .simple ⟨[.named "b"]⟩ .descending), (2, .simple ⟨[.named "c"]⟩ .ascending),
      (2 ^ 63 - 1, .simple ⟨[.named "d"]⟩ .ascending)], rfl, ?_⟩
    simp [byMagnitude, List.mergeSort, List.MergeSort.Internal.splitInTwo]
  obtain ⟨sorted, hranking, hlist⟩ := (read_object_ranking _ (by decide)).2 _ hread
  exact ⟨_, sorted, _, rfl, hread, hranking, hlist, rfl⟩

end SortSpec

end DocFilter
