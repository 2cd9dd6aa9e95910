import DocFilter.Proofs.Reading.Contributions
import Mathlib.Data.List.Perm.Basic

/-!
# Channels of a document

Every member of a document feeds one part of the filter: the formulas, the keys, the comparisons,
the spatial restrictions, the text searches or the sort order. Which one it is can be seen from the
member. No part depends on the members that feed the others, so that members of different parts may
change places, and the members that restrict may be put under `$query`.

## Main definitions

* `Channel.ofMember`: the part of the filter that a member feeds.
* `Json.Rearranges`: the same members in an order that the filter does not notice.
* `Json.Rearranged`, `Json.Enveloped`: documents whose members have changed places, and documents
  whose members have been put under `$query`.

## Main results

* `Clause.filter_flatMap_contribution`: what a part of the filter is made of.
* `Filter.ofClauses_congr`: the parts make the filter.
* `Filter.ofJson_of_rearranged`: documents with the same filter.
-/

namespace DocFilter

/-! ### Parts of a filter -/

/-- The part of a filter that a member feeds. -/
inductive Channel where
  | formula | keys | comparisons | spatial | textSearch | sort
  /-- No part: the member is passed over. -/
  | passed
deriving DecidableEq, Repr

namespace Channel

/-- The part that a member feeds. A field with a spatial or text operator alone makes a restriction
of its own, and every other field a formula. -/
def ofMember (member : String × Json) : Channel :=
  match Keyword.ofKey? member.1, member.2 with
  | some .id, _ => keys
  | some .sqlJson, _ => comparisons
  | some .orderBy, _ => sort
  | some .envelope, _ => passed
  | none, .object [(operator, _)] =>
    match Keyword.ofKey? operator with
    | some (.spatial _) => spatial
    | some .contains => textSearch
    | _ => formula
  | _, _ => formula

end Channel

namespace Clause

/-- The part that a contribution belongs to. -/
def channel : Clause → Channel
  | formula _ => .formula
  | keys _ => .keys
  | comparisons _ => .comparisons
  | spatial _ => .spatial
  | textSearch _ => .textSearch
  | sort _ => .sort

/-- A spatial or text operator that stands alone is seen in the member. -/
theorem channel_of_readSide? {key : String} {v : Json} {clause : Clause}
    (hkey : Keyword.ofKey? key = none) (h : readSide? key v = some (.ok clause)) :
    clause.channel = Channel.ofMember (key, v) := by
  unfold readSide? at h
  split at h
  · split at h
    · next hoperator =>
      obtain ⟨path, -, h⟩ := bind_eq_ok.1 (Option.some.inj h)
      obtain ⟨s, -, h⟩ := bind_eq_ok.1 h
      rw [← Except.ok.inj h]
      simp [Channel.ofMember, hkey, hoperator, channel]
    · next hoperator =>
      obtain ⟨path, -, h⟩ := bind_eq_ok.1 (Option.some.inj h)
      obtain ⟨t, -, h⟩ := bind_eq_ok.1 h
      rw [← Except.ok.inj h]
      simp [Channel.ofMember, hkey, hoperator, channel]
    · cases h
  · cases h

theorem ofMember_of_readSide? {key : String} {v : Json} (hkey : Keyword.ofKey? key = none)
    (h : readSide? key v = none) : Channel.ofMember (key, v) = .formula := by
  unfold readSide? at h
  unfold Channel.ofMember
  rw [hkey]
  split at h
  · split at h
    · cases h
    · cases h
    · next hspatial hcontains =>
      dsimp only
      split
      · exact absurd ‹_› (hspatial _)
      · exact absurd ‹_› hcontains
      · rfl
  · next hsingle => simp_all

/-- **A contribution belongs to the part that its member feeds.** -/
theorem channel_of_read {earlier : List String} {key : String} {v : Json} {clause : Clause}
    (h : read earlier key v = .ok clause) : clause.channel = Channel.ofMember (key, v) := by
  obtain ⟨-, hsort, henvelope⟩ := keyword_of_read h
  unfold read at h
  split at h
  · next hkey =>
    obtain ⟨-, -, h⟩ := bind_eq_ok.1 h
    obtain ⟨ks, -, h⟩ := bind_eq_ok.1 h
    rw [← Except.ok.inj h]
    simp [Channel.ofMember, hkey, channel]
  · next hkey =>
    obtain ⟨-, -, h⟩ := bind_eq_ok.1 h
    obtain ⟨cs, -, h⟩ := bind_eq_ok.1 h
    rw [← Except.ok.inj h]
    simp [Channel.ofMember, hkey, channel]
  · next k hid hsqlJson hkey =>
    obtain ⟨f, -, rfl⟩ := map_eq_ok.1 h
    rw [channel, Channel.ofMember]
    cases k <;> simp_all
  · next hkey =>
    split at h
    · cases h
    · cases hside : readSide? key v with
      | some outcome =>
        rw [hside, Option.getD_some] at h
        exact channel_of_readSide? hkey (hside.trans (congrArg some h))
      | none =>
        rw [hside, Option.getD_none] at h
        obtain ⟨f, -, rfl⟩ := map_eq_ok.1 h
        exact (ofMember_of_readSide? hkey hside).symm

theorem channel_of_mem_contribution {member : String × Json} {clause : Clause}
    (h : clause ∈ contribution member) : clause.channel = Channel.ofMember member := by
  unfold contribution at h
  split at h
  · cases h
  · next hkey =>
    rw [Option.mem_toList, Option.map_eq_some_iff] at h
    obtain ⟨spec, -, rfl⟩ := h
    simp [Channel.ofMember, hkey, channel]
  · cases h
  · cases hread : read [] member.1 member.2 with
    | error e => simp [hread, Except.toOption] at h
    | ok c =>
      obtain rfl : clause = c := by simpa [hread, Except.toOption] using h
      exact channel_of_read hread

/-- **A part of the contributions comes from the members that feed it.** -/
theorem filter_flatMap_contribution (ch : Channel) (members : List (String × Json)) :
    (members.flatMap contribution).filter (fun clause => clause.channel = ch) =
      (members.filter fun member => Channel.ofMember member = ch).flatMap contribution := by
  induction members with
  | nil => rfl
  | cons member members ih =>
    rw [List.flatMap_cons, List.filter_append, ih, List.filter_cons]
    by_cases hch : Channel.ofMember member = ch
    · have hall : ∀ clause ∈ contribution member, decide (clause.channel = ch) = true :=
        fun clause h => decide_eq_true ((channel_of_mem_contribution h).trans hch)
      rw [List.filter_eq_self.2 hall, if_pos (decide_eq_true hch), List.flatMap_cons]
    · have hnone : ∀ clause ∈ contribution member, ¬decide (clause.channel = ch) = true :=
        fun clause h => by simpa [channel_of_mem_contribution h] using hch
      rw [List.filter_eq_nil_iff.2 hnone, if_neg (by simpa using hch), List.nil_append]

/-- What belongs to one part only can be taken from it. -/
theorem flatMap_filter_channel {β : Type} {g : Clause → List β} {ch : Channel}
    (h : ∀ clause : Clause, clause.channel ≠ ch → g clause = []) (clauses : List Clause) :
    (clauses.filter fun clause => clause.channel = ch).flatMap g = clauses.flatMap g := by
  induction clauses with
  | nil => rfl
  | cons clause clauses ih =>
    by_cases hch : clause.channel = ch
    · rw [List.filter_cons_of_pos (by simpa using hch), List.flatMap_cons, List.flatMap_cons, ih]
    · rw [List.filter_cons_of_neg (by simpa using hch), List.flatMap_cons, ih, h clause hch,
        List.nil_append]

theorem filterMap_filter_channel {β : Type} {g : Clause → Option β} {ch : Channel}
    (h : ∀ clause : Clause, clause.channel ≠ ch → g clause = none) (clauses : List Clause) :
    (clauses.filter fun clause => clause.channel = ch).filterMap g = clauses.filterMap g := by
  rw [List.filterMap_eq_flatMap_toList, List.filterMap_eq_flatMap_toList]
  exact flatMap_filter_channel (fun clause hch => by rw [h clause hch]; rfl) clauses

end Clause

/-- **The parts make the filter**, in whatever order their contributions stand among each other. -/
theorem Filter.ofClauses_congr {clauses clauses' : List Clause}
    (h : ∀ ch, ch ≠ Channel.passed → clauses.filter (fun clause => clause.channel = ch) =
      clauses'.filter fun clause => clause.channel = ch) :
    ofClauses clauses = ofClauses clauses' := by
  have hflat {β : Type} {g : Clause → List β} (ch : Channel) (hch : ch ≠ .passed)
      (hg : ∀ clause : Clause, clause.channel ≠ ch → g clause = []) :
      clauses.flatMap g = clauses'.flatMap g := by
    rw [← Clause.flatMap_filter_channel hg clauses, h ch hch, Clause.flatMap_filter_channel hg]
  have hmap {β : Type} {g : Clause → Option β} (ch : Channel) (hch : ch ≠ .passed)
      (hg : ∀ clause : Clause, clause.channel ≠ ch → g clause = none) :
      clauses.filterMap g = clauses'.filterMap g := by
    rw [← Clause.filterMap_filter_channel hg clauses, h ch hch, Clause.filterMap_filter_channel hg]
  have hformulas : clauses.filterMap Clause.formula? = clauses'.filterMap Clause.formula? :=
    hmap .formula nofun fun clause hch => by
      cases clause with
      | formula _ => exact absurd rfl hch
      | _ => rfl
  have hkeys : clauses.flatMap Clause.keysOf = clauses'.flatMap Clause.keysOf :=
    hflat .keys nofun fun clause hch => by
      cases clause with
      | keys _ => exact absurd rfl hch
      | _ => rfl
  have hcomparisons :
      clauses.flatMap Clause.comparisonsOf = clauses'.flatMap Clause.comparisonsOf :=
    hflat .comparisons nofun fun clause hch => by
      cases clause with
      | comparisons _ => exact absurd rfl hch
      | _ => rfl
  have hspatial : clauses.filterMap Clause.spatial? = clauses'.filterMap Clause.spatial? :=
    hmap .spatial nofun fun clause hch => by
      cases clause with
      | spatial _ => exact absurd rfl hch
      | _ => rfl
  have htext : clauses.filterMap Clause.textSearch? = clauses'.filterMap Clause.textSearch? :=
    hmap .textSearch nofun fun clause hch => by
      cases clause with
      | textSearch _ => exact absurd rfl hch
      | _ => rfl
  have hsort : clauses.filterMap Clause.sort? = clauses'.filterMap Clause.sort? :=
    hmap .sort nofun fun clause hch => by
      cases clause with
      | sort _ => exact absurd rfl hch
      | _ => rfl
  simp only [ofClauses, hformulas, hkeys, hcomparisons, hspatial, htext, ← List.head?_filterMap,
    hsort]

/-! ### Rearrangements -/

namespace Json

/-- The same members, where those that feed the formulas, the spatial restrictions or the text
searches have kept their order. -/
def Rearranges (members members' : List (String × Json)) : Prop :=
  members.Perm members' ∧ ∀ ch ∈ [Channel.formula, .spatial, .textSearch],
    members.filter (fun member => Channel.ofMember member = ch) =
      members'.filter fun member => Channel.ofMember member = ch

/-- Two documents with the same members in orders that the filter does not notice. Where there is a
`$query`, its members and those around it are rearranged each among themselves. -/
inductive Rearranged : Json → Json → Prop
  | members {ms ms' : List (String × Json)} (hquery : Filter.countKey "$query" ms = 0)
      (h : Rearranges ms ms') : Rearranged (object ms) (object ms')
  | query {before after before' after' body body' : List (String × Json)}
      (houter : (before ++ after).Perm (before' ++ after')) (hbody : Rearranges body body') :
      Rearranged (object (before ++ ("$query", object body) :: after))
        (object (before' ++ ("$query", object body') :: after'))

/-- A document without `$query`, and one that has all its members under `$query` but those that
stand beside the restricting ones. -/
inductive Enveloped : Json → Json → Prop
  | intro {ms before after : List (String × Json)} (hquery : Filter.countKey "$query" ms = 0)
      (h : (before ++ after).Perm (ms.filter fun (key, _) => isBeside key)) :
      Enveloped (object ms) (object (before ++
        ("$query", object (ms.filter fun (key, _) => !isBeside key)) :: after))

/-! ### Rearranged members -/

theorem countKey_eq_of_perm (key : String) {members members' : List (String × Json)}
    (h : members.Perm members') : Filter.countKey key members = Filter.countKey key members' :=
  h.countP_eq _

theorem IsBody.perm {members members' : List (String × Json)} (h : IsBody members)
    (hperm : members.Perm members') : IsBody members' :=
  ⟨fun member hmember => h.1 member (hperm.mem_iff.2 hmember),
    countKey_eq_of_perm _ hperm ▸ h.2.1, countKey_eq_of_perm _ hperm ▸ h.2.2⟩

end Json

namespace Clause

theorem SortsOnce.perm {members members' : List (String × Json)} (h : SortsOnce members)
    (hperm : members.Perm members') : SortsOnce members' :=
  ⟨Json.countKey_eq_of_perm _ hperm ▸ h.1, fun v hv => h.2 v (hperm.mem_iff.2 hv)⟩

end Clause

namespace Channel

/-- The parts that one key feeds. -/
def key? : Channel → Option String
  | keys => some "$id"
  | comparisons => some "$sqlJson"
  | sort => some "$orderby"
  | _ => none

theorem ofMember_eq_iff {ch : Channel} {key : String} (h : ch.key? = some key)
    (member : String × Json) : ofMember member = ch ↔ member.1 = key := by
  constructor
  · intro hmember
    unfold ofMember at hmember
    split at hmember
    · next hkey =>
      subst hmember
      exact (Keyword.key_of_ofKey? "$id" hkey (by decide)).trans (Option.some.inj h)
    · next hkey =>
      subst hmember
      exact (Keyword.key_of_ofKey? "$sqlJson" hkey (by decide)).trans (Option.some.inj h)
    · next hkey =>
      subst hmember
      exact (Keyword.key_of_ofKey? "$orderby" hkey (by decide)).trans (Option.some.inj h)
    · subst hmember
      cases h
    · split at hmember <;> subst hmember <;> cases h
    · subst hmember
      cases h
  · rintro rfl
    unfold ofMember
    cases ch with
    | keys => rw [← Option.some.inj h]; rfl
    | comparisons => rw [← Option.some.inj h]; rfl
    | sort => rw [← Option.some.inj h]; rfl
    | _ => cases h

end Channel

theorem eq_of_perm_of_length_le_one {β : Type} {l l' : List β} (h : l.Perm l')
    (hlength : l.length ≤ 1) : l = l' := by
  match l, hlength with
  | [], _ => exact (List.nil_perm.1 h).symm
  | [a], _ => exact (List.singleton_perm.1 h)

/-- Members that have been rearranged feed every part alike, if none of the keys that feed a part
alone is given twice. -/
theorem Json.Rearranges.filter_eq {members members' : List (String × Json)}
    (h : Rearranges members members')
    (honce : ∀ key ∈ "$orderby" :: Clause.onceKeys, Filter.countKey key members ≤ 1)
    {ch : Channel} (hch : ch ≠ .passed) :
    members.filter (fun member => Channel.ofMember member = ch) =
      members'.filter fun member => Channel.ofMember member = ch := by
  cases hkey : ch.key? with
  | none =>
    refine h.2 ch ?_
    cases ch <;> simp_all [Channel.key?]
  | some key =>
    -- one member at most has the key, so that there is no order to keep
    refine eq_of_perm_of_length_le_one (h.1.filter _) ?_
    have hmem : key ∈ "$orderby" :: Clause.onceKeys := by
      cases ch <;> simp_all [Channel.key?, Clause.onceKeys]
    have hlength : (members.filter fun member => Channel.ofMember member = ch).length =
        Filter.countKey key members := by
      rw [← List.countP_eq_length_filter]
      exact List.countP_congr fun member _ => by simp [Channel.ofMember_eq_iff hkey]
    exact hlength ▸ honce key hmem

theorem Json.Rearranges.refl (members : List (String × Json)) : Rearranges members members :=
  ⟨.refl _, fun _ _ => rfl⟩

theorem Json.Rearranges.trans {members members' members'' : List (String × Json)}
    (h : Rearranges members members') (h' : Rearranges members' members'') :
    Rearranges members members'' :=
  ⟨h.1.trans h'.1, fun ch hch => (h.2 ch hch).trans (h'.2 ch hch)⟩

/-! ### Members around others -/

namespace Json

/-- A member that stands beside the restricting ones feeds none of the parts in which the order
counts. -/
theorem ofMember_ne_of_isBeside {member : String × Json} {ch : Channel}
    (hch : ch ∈ [Channel.formula, .spatial, .textSearch]) (h : isBeside member.1) :
    Channel.ofMember member ≠ ch := by
  rintro rfl
  unfold isBeside at h
  unfold Channel.ofMember at hch
  split at h
  · next hkey => simp [hkey] at hch
  · next hkey => simp [hkey] at hch
  · cases h

theorem filter_ofMember_of_isBeside {members : List (String × Json)} {ch : Channel}
    (hch : ch ∈ [Channel.formula, .spatial, .textSearch])
    (h : ∀ member ∈ members, isBeside member.1) :
    members.filter (fun member => Channel.ofMember member = ch) = [] :=
  List.filter_eq_nil_iff.2 fun member hmember heq =>
    ofMember_ne_of_isBeside hch (h member hmember) (of_decide_eq_true heq)

/-- The members that stand beside the others may be put before them. -/
theorem rearranges_filter_isBeside (members : List (String × Json)) :
    Rearranges members ((members.filter fun (key, _) => isBeside key) ++
      members.filter fun (key, _) => !isBeside key) := by
  refine ⟨(List.filter_append_perm _ members).symm, fun ch hch => ?_⟩
  rw [List.filter_append, filter_ofMember_of_isBeside hch fun _ h => (List.mem_filter.1 h).2,
    List.nil_append, List.filter_filter]
  refine List.filter_congr fun member _ => ?_
  by_cases hbeside : isBeside member.1
  · simp [ofMember_ne_of_isBeside hch hbeside]
  · simp [hbeside]

/-- Members that stand beside the others may be put anywhere around them. -/
theorem rearranges_around {before after before' after' body body' : List (String × Json)}
    (houter : (before ++ after).Perm (before' ++ after'))
    (hbeside : ∀ member ∈ before ++ after, isBeside member.1) (hbody : Rearranges body body') :
    Rearranges (before ++ (body ++ after)) (before' ++ (body' ++ after')) := by
  have hbeside' : ∀ member ∈ before' ++ after', isBeside member.1 :=
    fun member hmember => hbeside member (houter.mem_iff.2 hmember)
  constructor
  · calc
      List.Perm (before ++ (body ++ after)) (body ++ (before ++ after)) :=
        List.perm_append_comm_assoc _ _ _
      List.Perm _ (body' ++ (before' ++ after')) := hbody.1.append houter
      List.Perm _ (before' ++ (body' ++ after')) := List.perm_append_comm_assoc _ _ _
  · intro ch hch
    rw [List.forall_mem_append] at hbeside hbeside'
    simp only [List.filter_append, filter_ofMember_of_isBeside hch hbeside.1,
      filter_ofMember_of_isBeside hch hbeside.2, filter_ofMember_of_isBeside hch hbeside'.1,
      filter_ofMember_of_isBeside hch hbeside'.2, List.nil_append, List.append_nil, hbody.2 ch hch]

end Json

namespace Clause

theorem unwrapped_append (members members' : List (String × Json)) :
    unwrapped (members ++ members') = unwrapped members ++ unwrapped members' :=
  List.flatMap_append

/-- Without `$query`, the members stand in the document. -/
theorem unwrapped_eq_self {members : List (String × Json)}
    (h : Filter.countKey "$query" members = 0) : unwrapped members = members := by
  induction members with
  | nil => rfl
  | cons member members ih =>
    rw [Filter.countKey_eq_zero_iff, List.forall_mem_cons, ← Filter.countKey_eq_zero_iff] at h
    have hkey : Keyword.ofKey? member.1 ≠ some .query := fun hkey =>
      h.1 (Keyword.key_of_ofKey? "$query" hkey (by decide))
    rw [unwrapped_cons, unwrapped_singleton_of_ne hkey, ih h.2, List.singleton_append]

theorem unwrapped_query {before after body : List (String × Json)}
    (h : ∀ member ∈ before ++ after, Json.isBeside member.1) :
    unwrapped (before ++ ("$query", .object body) :: after) = before ++ (body ++ after) := by
  rw [List.forall_mem_append] at h
  have hbody : unwrapped [("$query", .object body)] = body := List.append_nil body
  rw [unwrapped_append, unwrapped_cons, unwrapped_eq_self (countKey_query_of_isBeside h.1),
    unwrapped_eq_self (countKey_query_of_isBeside h.2), hbody]

theorem exists_query_of_accepted {members : List (String × Json)} (h : Accepted members)
    (hquery : Filter.countKey "$query" members ≠ 0) :
    ∃ before body after, members = before ++ ("$query", .object body) :: after := by
  rw [Ne, Filter.countKey_eq_zero_iff] at hquery
  push Not at hquery
  obtain ⟨⟨key, v⟩, hmember, rfl⟩ := hquery
  obtain ⟨body, rfl, -⟩ := (Filter.isOuter_iff.1 (h.2.1 _ hmember)).2.1 rfl
  obtain ⟨before, after, rfl⟩ := List.append_of_mem hmember
  exact ⟨before, body, after, rfl⟩

/-- A key with which no member that restricts stands is not counted among them. -/
theorem countKey_orderBy_of_isBody {body : List (String × Json)} (h : Json.IsBody body) :
    Filter.countKey "$orderby" body = 0 := by
  refine Filter.countKey_eq_zero_iff.2 fun member hmember heq => ?_
  have hmember := h.1 member hmember
  rw [heq, Json.IsMember.eq_def] at hmember
  exact hmember

theorem countKey_of_isBeside {key : String} (hkey : key ∈ onceKeys)
    {members : List (String × Json)} (h : ∀ member ∈ members, Json.isBeside member.1) :
    Filter.countKey key members = 0 := by
  have hnot : ∀ key ∈ onceKeys, ¬Json.isBeside key := by decide
  exact Filter.countKey_eq_zero_iff.2 fun member hmember heq =>
    hnot key hkey (heq ▸ h member hmember)

/-- What may be given once is given once at most, also if the members under `$query` are counted. -/
theorem countKey_unwrapped_le_one {members : List (String × Json)} (h : Accepted members) :
    ∀ key ∈ "$orderby" :: onceKeys, Filter.countKey key (unwrapped members) ≤ 1 := by
  by_cases hquery : Filter.countKey "$query" members = 0
  · rw [unwrapped_eq_self hquery]
    exact h.2.2
  · obtain ⟨before, body, after, rfl⟩ := exists_query_of_accepted h hquery
    obtain ⟨hsort, hbeside, hbody⟩ := accepted_query_iff.1 h
    intro key hkey
    have hcount : Filter.countKey key (unwrapped (before ++ ("$query", .object body) :: after)) =
        Filter.countKey key (before ++ after) + Filter.countKey key body := by
      rw [unwrapped_query hbeside]
      simp only [countKey_append]
      omega
    rw [hcount]
    rcases List.mem_cons.1 hkey with rfl | honce
    · rw [countKey_orderBy_of_isBody hbody]
      exact hsort.1
    · rw [countKey_of_isBeside honce hbeside, Nat.zero_add]
      simp only [onceKeys, List.mem_cons, List.not_mem_nil, or_false] at honce
      rcases honce with rfl | rfl
      · exact hbody.2.1
      · exact hbody.2.2

end Clause

/-! ### Documents -/

namespace Filter

/-- Members that are accepted in another order make the same filter. -/
theorem ofJson_of_rearranges {members members' : List (String × Json)} {f : Filter}
    (h : ofJson (.object members) = .ok f) (haccepted : Clause.Accepted members')
    (hmembers : Json.Rearranges (Clause.unwrapped members) (Clause.unwrapped members')) :
    ofJson (.object members') = .ok f := by
  obtain ⟨hold, rfl⟩ := ofJson_object_eq_ok_iff.1 h
  refine ofJson_object_eq_ok_iff.2 ⟨haccepted, ofClauses_congr fun ch hch => ?_⟩
  rw [Clause.filter_flatMap_contribution, Clause.filter_flatMap_contribution,
    hmembers.filter_eq (Clause.countKey_unwrapped_le_one hold) hch]

theorem ofJson_of_rearranges_members {ms ms' : List (String × Json)} {f : Filter}
    (h : ofJson (.object ms) = .ok f) (hquery : countKey "$query" ms = 0)
    (hmembers : Json.Rearranges ms ms') : ofJson (.object ms') = .ok f := by
  have hquery' : countKey "$query" ms' = 0 := Json.countKey_eq_of_perm _ hmembers.1 ▸ hquery
  obtain ⟨hsort, hbody⟩ := (Clause.accepted_iff hquery).1 (ofJson_object_eq_ok_iff.1 h).1
  refine ofJson_of_rearranges h ((Clause.accepted_iff hquery').2 ?_) ?_
  · exact ⟨hsort.perm hmembers.1, hbody.perm (hmembers.1.filter _)⟩
  · rwa [Clause.unwrapped_eq_self hquery, Clause.unwrapped_eq_self hquery']

theorem ofJson_of_rearranges_query {before after before' after' body body' : List (String × Json)}
    {f : Filter} (h : ofJson (.object (before ++ ("$query", .object body) :: after)) = .ok f)
    (houter : (before ++ after).Perm (before' ++ after')) (hbody : Json.Rearranges body body') :
    ofJson (.object (before' ++ ("$query", .object body') :: after')) = .ok f := by
  obtain ⟨hsort, hbeside, hrestricting⟩ :=
    Clause.accepted_query_iff.1 (ofJson_object_eq_ok_iff.1 h).1
  have hbeside' : ∀ member ∈ before' ++ after', Json.isBeside member.1 :=
    fun member hmember => hbeside member (houter.mem_iff.2 hmember)
  refine ofJson_of_rearranges h (Clause.accepted_query_iff.2 ?_) ?_
  · exact ⟨hsort.perm houter, hbeside', hrestricting.perm hbody.1⟩
  · rw [Clause.unwrapped_query hbeside, Clause.unwrapped_query hbeside']
    exact Json.rearranges_around houter hbeside hbody

theorem ofJson_of_enveloped {ms before after : List (String × Json)} {f : Filter}
    (h : ofJson (.object ms) = .ok f) (hquery : countKey "$query" ms = 0)
    (houter : (before ++ after).Perm (ms.filter fun (key, _) => Json.isBeside key)) :
    ofJson (.object (before ++
      ("$query", .object (ms.filter fun (key, _) => !Json.isBeside key)) :: after)) = .ok f := by
  obtain ⟨hsort, hbody⟩ := (Clause.accepted_iff hquery).1 (ofJson_object_eq_ok_iff.1 h).1
  have hsort' : Clause.SortsOnce (ms.filter fun (key, _) => Json.isBeside key) :=
    ⟨Nat.le_trans List.filter_sublist.countP_le hsort.1,
      fun v hv => hsort.2 v (List.mem_of_mem_filter hv)⟩
  have hall : ∀ member ∈ ms.filter fun (key, _) => Json.isBeside key, Json.isBeside member.1 :=
    fun _ hmember => (List.mem_filter.1 hmember).2
  have hbeside : ∀ member ∈ before ++ after, Json.isBeside member.1 :=
    fun member hmember => hall member (houter.mem_iff.1 hmember)
  refine ofJson_of_rearranges h (Clause.accepted_query_iff.2 ?_) ?_
  · exact ⟨hsort'.perm houter.symm, hbeside, hbody⟩
  · rw [Clause.unwrapped_eq_self hquery, Clause.unwrapped_query hbeside]
    refine (Json.rearranges_filter_isBeside ms).trans ?_
    rw [← List.append_nil (ms.filter fun (key, _) => Json.isBeside key)] at houter hall
    have hmove := Json.rearranges_around houter.symm hall (.refl (ms.filter fun (key, _) =>
      !Json.isBeside key))
    rwa [List.append_nil] at hmove

/-- **The order of members in different parts does not matter, nor does `$query`.** A document keeps
its filter if its members are rearranged, and if those that restrict are put under `$query`. -/
theorem ofJson_of_rearranged {d : Json} {f : Filter} (h : ofJson d = .ok f) :
    (∀ d', d.Rearranged d' → ofJson d' = .ok f) ∧ ∀ d', d.Enveloped d' → ofJson d' = .ok f := by
  constructor
  · rintro d' (⟨hquery, hmembers⟩ | ⟨houter, hbody⟩)
    · exact ofJson_of_rearranges_members h hquery hmembers
    · exact ofJson_of_rearranges_query h houter hbody
  · rintro d' ⟨hquery, houter⟩
    exact ofJson_of_enveloped h hquery houter

/-- A sort order, keys and a text search change places with two conditions and the spatial
restriction between them, and all but the sort order are put under `$query`. -/
theorem ofJson_of_rearranged_sides :
    ∃ sorts sides fields : List (String × Json),
      sorts = [("$orderby", .object [("a", .number (.ofNat 1))])] ∧
      sides = [("$id", .string "k"), ("t", .object [("$contains", .string "w")])] ∧
      fields = [("a", .null), ("g", .object [("$within", .object [("$geometry", .object [])])]),
        ("$or", .array [.object [("b", .bool true)]])] ∧
      ∃ f, ofJson (.object (sorts ++ sides ++ fields)) = .ok f ∧
        (f.conditions.length, f.spatial.length, f.textSearches.length) = (2, 1, 1) ∧
        ofJson (.object (fields ++ (sorts ++ sides))) = .ok f ∧
        ofJson (.object (("$query", .object (sides ++ fields)) :: sorts)) = .ok f := by
  refine ⟨_, _, _, rfl, rfl, rfl, ?_⟩
  generalize hsorts : [("$orderby", Json.object [("a", .number (.ofNat 1))])] = sorts
  generalize hsides : [("$id", Json.string "k"), ("t", .object [("$contains", .string "w")])] =
    sides
  generalize hfields : [("a", Json.null),
    ("g", .object [("$within", .object [("$geometry", .object [])])]),
    ("$or", .array [.object [("b", .bool true)]])] = fields
  have hread : (ofJson (.object (sorts ++ sides ++ fields))).toOption.map (fun f =>
      (f.conditions.length, f.spatial.length, f.textSearches.length)) = some (2, 1, 1) := by
    subst hsorts hsides hfields
    decide +kernel
  have hquery : countKey "$query" (sorts ++ sides ++ fields) = 0 := by
    subst hsorts hsides hfields
    decide +kernel
  have hmoved : Json.Rearranges (sorts ++ sides ++ fields) (fields ++ (sorts ++ sides)) := by
    refine ⟨List.perm_append_comm, ?_⟩
    subst hsorts hsides hfields
    exact List.forall_mem_cons.2
      ⟨rfl, List.forall_mem_cons.2 ⟨rfl, List.forall_mem_singleton.2 rfl⟩⟩
  have hbeside : (sorts ++ sides ++ fields).filter (fun (key, _) => Json.isBeside key) =
      [] ++ sorts := by
    subst hsorts hsides hfields
    rfl
  have hbody : (sorts ++ sides ++ fields).filter (fun (key, _) => !Json.isBeside key) =
      sides ++ fields := by
    subst hsorts hsides hfields
    rfl
  have henveloped := Json.Enveloped.intro hquery (.of_eq hbeside.symm)
  rw [hbody] at henveloped
  obtain ⟨f, hf, hparts⟩ := exists_of_toOption_map hread
  obtain ⟨hsame, hunder⟩ := ofJson_of_rearranged hf
  exact ⟨f, hf, hparts, hsame _ (.members hquery hmoved), hunder _ henveloped⟩

end Filter

end DocFilter
