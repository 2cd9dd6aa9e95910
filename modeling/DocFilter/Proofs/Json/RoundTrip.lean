import DocFilter.Proofs.Channels
import DocFilter.Proofs.Json.Values

/-!
# Documents survive writing

A document that has been read from a text can be written and read again without a change: no member
is lost, moved or merged with another, and strings and numerals keep every character. So its text is
a normal form, and different documents have different texts.

Spatial restrictions depend on this. Their geometries are parts of the filter, and a statement takes
each of them as text.

## Main definitions

* `Json.compact?`: the normal form of a text.
* `Json.geometryMember?`: the geometry of a field with a spatial operator.

## Main results

* `Json.ofBytes?_write`: readable documents survive.
* `Filter.forall₂_geometryMember?`: where the geometries of a filter come from.
* `Json.ofBytes?_write_of_ofBytes?`: every document that has been read survives, and so do the
  geometries of its filter.
-/

namespace DocFilter

/-! ### Texts and bytes -/

namespace Json

theorem ofBytes?_toUTF8 (s : String) : ofBytes? s.toUTF8 = ofText? s := by
  have hdecode : String.fromUTF8? s.toUTF8 = some s := dif_pos s.isValidUTF8
  rw [ofBytes?, hdecode]
  rfl

theorem readable_of_ofBytes? {bytes : ByteArray} {n : Json} (h : ofBytes? bytes = some n) :
    Readable maxDepth n := by
  obtain ⟨s, -, hs⟩ := Option.bind_eq_some_iff.1 h
  exact readable_of_ofText? hs

/-- **A readable document survives writing.** -/
theorem ofBytes?_write {n : Json} (h : Readable maxDepth n) :
    ofBytes? n.write.toUTF8 = some n := by
  rw [ofBytes?_toUTF8, ofText?_write h]

/-- The normal form of a text: the document that it is, written again. -/
def compact? (bytes : ByteArray) : Option ByteArray :=
  (ofBytes? bytes).map fun n => n.write.toUTF8

/-- Readable documents with the same text are the same. -/
theorem eq_of_write_eq {n n' : Json} (h : Readable maxDepth n) (h' : Readable maxDepth n')
    (heq : n.write = n'.write) : n = n' := by
  have hread := ofText?_write h
  rw [heq, ofText?_write h'] at hread
  exact (Option.some.inj hread).symm

/-! ### Parts of a readable document -/

theorem Readable.of_mem {depth : Nat} {members : List (String × Json)}
    (h : Readable depth (object members)) {member : String × Json} (hmember : member ∈ members) :
    Readable depth member.2 := by
  cases depth with
  | zero => exact h.elim
  | succ depth => exact (h.2 member hmember).succ

/-- The geometry of a field whose object has one operator: the last member `$geometry` of what
stands under the operator. -/
def geometryMember? : Json → Option Json
  | object [(_, object members)] => members.reverse.lookup "$geometry"
  | _ => none

theorem Readable.geometryMember? {depth : Nat} {v geometry : Json} (h : Readable depth v)
    (hgeometry : v.geometryMember? = some geometry) : Readable depth geometry := by
  unfold Json.geometryMember? at hgeometry
  split at hgeometry
  · next operator members =>
    obtain ⟨before, after, hmembers, -⟩ := List.lookup_eq_some_iff.1 hgeometry
    have hmember : ("$geometry", geometry) ∈ members := by
      rw [← List.mem_reverse, hmembers]
      exact List.mem_append_right _ List.mem_cons_self
    exact (h.of_mem List.mem_cons_self).of_mem hmember
  · cases hgeometry

/-- The members under `$query` are as readable as the document. -/
theorem Readable.unwrapped {depth : Nat} {members : List (String × Json)}
    (h : Readable depth (object members)) :
    ∀ member ∈ Clause.unwrapped members, Readable depth member.2 := by
  intro member hmember
  obtain ⟨⟨key, v⟩, hkey, hmember⟩ := List.mem_flatMap.1 hmember
  have hv := h.of_mem hkey
  dsimp only at hmember hv
  split at hmember
  · exact hv.of_mem hmember
  · rw [List.mem_singleton] at hmember
    exact hmember ▸ hv

end Json

/-! ### Geometries of a filter -/

namespace Spatial

theorem Draft.geometry_of_add {relation : SpatialRelation} {d d' : Draft} {name : String}
    {value : Json} (h : d.add relation name value = .ok d') :
    d'.geometry = if name = "$geometry" then some value else d.geometry := by
  unfold add at h
  split at h
  · next hname =>
    obtain ⟨members, hmembers, rfl⟩ := map_eq_ok.1 h
    rw [if_pos hname, Clause.expectMembers_eq_ok hmembers]
  · next hname =>
    rw [if_neg hname]
    split_ifs at h
    all_goals
      obtain ⟨x, -, rfl⟩ := map_eq_ok.1 h
      rfl

/-- Of several geometries the last one counts. -/
theorem geometry_of_foldlM {relation : SpatialRelation} {members : List (String × Json)}
    {d d' : Draft}
    (h : members.foldlM (fun d (name, value) => Draft.add relation d name value) d = .ok d') :
    d'.geometry = (members.reverse.lookup "$geometry").or d.geometry := by
  induction members generalizing d with
  | nil =>
    obtain rfl := Except.ok.inj h
    rfl
  | cons member members ih =>
    obtain ⟨name, value⟩ := member
    obtain ⟨d₁, hadd, h⟩ := bind_eq_ok.1 h
    rw [ih h, Draft.geometry_of_add hadd, List.reverse_cons, List.lookup_append, Option.or_assoc]
    by_cases hname : name = "$geometry"
    · subst hname
      rfl
    · have hlookup : [(name, value)].lookup "$geometry" = none :=
        List.lookup_eq_none_iff.2 (by simpa using Ne.symm hname)
      rw [if_neg hname, hlookup, Option.none_or]

theorem lookup_geometry_of_read {path : Path} {relation : SpatialRelation} {operand : Json}
    {s : Spatial} (h : read path relation operand = .ok s) :
    ∃ members, operand = .object members ∧
      members.reverse.lookup "$geometry" = some s.geometry := by
  obtain ⟨members, hmembers, hrest⟩ := bind_eq_ok.1 h
  obtain ⟨d, hd, hrest⟩ := bind_eq_ok.1 hrest
  obtain ⟨rfl, -⟩ := Demand.expectSomeMembers_eq_ok hmembers
  have hgeometry := geometry_of_foldlM hd
  rw [Option.or_none] at hgeometry
  refine ⟨members, rfl, ?_⟩
  rw [← hgeometry]
  split at hrest
  · next geometry hsome =>
    dsimp only at hrest
    split_ifs at hrest
    · cases hrest
    · obtain ⟨mode, -, hrest⟩ := bind_eq_ok.1 hrest
      rw [hsome, ← Except.ok.inj hrest]
  · cases hrest

theorem head?_binds_render (column : String) (s : Spatial) :
    (s.render column).binds.head? = some (.text s.geometry.write) := by
  unfold render
  cases s.distance <;> rfl

/-- A statement takes the geometry of the restriction as a text, which is read back as the geometry
of a member. -/
def BindsGeometry (member : String × Json) (s : Spatial) : Prop :=
  ∃ text, (∀ column, (s.render column).binds.head? = some (.text text)) ∧
    Json.ofText? text = some s.geometry ∧ member.2.geometryMember? = some s.geometry

end Spatial

namespace Clause

/-- Every member of an accepted document that restricts can be read by itself. -/
theorem exists_read_of_accepted {members : List (String × Json)} (h : Accepted members)
    {member : String × Json} (hmember : member ∈ unwrapped members)
    (hbeside : Json.isBeside member.1 = false) :
    ∃ clause, read [] member.1 member.2 = .ok clause := by
  have hbody {body : List (String × Json)} (hbody : Json.IsBody body) (hmember : member ∈ body) :
      ∃ clause, read [] member.1 member.2 = .ok clause :=
    exists_read_iff.2 ⟨hbody.1 member hmember, fun _ => List.not_mem_nil⟩
  by_cases hquery : Filter.countKey "$query" members = 0
  · rw [unwrapped_eq_self hquery] at hmember
    refine hbody ((accepted_iff hquery).1 h).2 (List.mem_filter.2 ⟨hmember, ?_⟩)
    simp [hbeside]
  · obtain ⟨before, body, after, rfl⟩ := exists_query_of_accepted h hquery
    obtain ⟨-, houter, hrestricting⟩ := accepted_query_iff.1 h
    rw [unwrapped_query houter] at hmember
    have hmember' : member ∈ body ∨ member ∈ before ++ after := by
      simpa [or_left_comm] using hmember
    rcases hmember' with hinner | houtside
    · exact hbody hrestricting hinner
    · exact absurd (houter member houtside) (Bool.eq_false_iff.1 hbeside)

theorem geometryMember?_of_read {earlier : List String} {key : String} {v : Json} {s : Spatial}
    (h : read earlier key v = .ok (.spatial s)) : v.geometryMember? = some s.geometry := by
  cases reads_of_read h with
  | spatial hkey hpath hoperator hspatial =>
    obtain ⟨members, rfl, hgeometry⟩ := Spatial.lookup_geometry_of_read hspatial
    exact hgeometry

theorem spatial_of_channel {clause : Clause} (h : clause.channel = .spatial) :
    ∃ s, clause = .spatial s := by
  cases clause with
  | spatial s => exact ⟨s, rfl⟩
  | _ => cases h

/-- A spatial member of an accepted document contributes the restriction by its geometry. -/
theorem exists_contribution_spatial {members : List (String × Json)} (h : Accepted members)
    {member : String × Json} (hmember : member ∈ unwrapped members)
    (hspatial : Channel.ofMember member = .spatial) :
    ∃ s, contribution member = [.spatial s] ∧ member.2.geometryMember? = some s.geometry := by
  have hbeside : Json.isBeside member.1 = false :=
    Bool.eq_false_iff.2 fun hbeside =>
      Json.ofMember_ne_of_isBeside (by decide) hbeside hspatial
  obtain ⟨clause, hread⟩ := exists_read_of_accepted h hmember hbeside
  obtain ⟨s, rfl⟩ := spatial_of_channel ((channel_of_read hread).trans hspatial)
  exact ⟨s, contribution_of_read hread, geometryMember?_of_read hread⟩

theorem forall₂_filterMap_spatial? {R : String × Json → Spatial → Prop}
    {members : List (String × Json)}
    (h : ∀ member ∈ members, ∃ s, contribution member = [.spatial s] ∧ R member s) :
    List.Forall₂ R members ((members.flatMap contribution).filterMap spatial?) := by
  induction members with
  | nil => exact .nil
  | cons member members ih =>
    obtain ⟨⟨s, hs, hmember⟩, hmembers⟩ := List.forall_mem_cons.1 h
    rw [List.flatMap_cons, hs]
    exact .cons hmember (ih hmembers)

end Clause

namespace Filter

/-- **The spatial restrictions of a filter and their members**, one by one and in order: each has
the geometry that its member gives. -/
theorem forall₂_geometryMember? {members : List (String × Json)} {f : Filter}
    (h : ofJson (.object members) = .ok f) :
    List.Forall₂ (fun member s => member.2.geometryMember? = some s.geometry)
      ((Clause.unwrapped members).filter fun member => Channel.ofMember member = .spatial)
      f.spatial := by
  obtain ⟨haccepted, rfl⟩ := ofJson_object_eq_ok_iff.1 h
  have hspatial (clauses : List Clause) : (ofClauses clauses).spatial =
      (clauses.filter fun clause => clause.channel = .spatial).filterMap Clause.spatial? :=
    (Clause.filterMap_filter_channel (fun clause hch => by
      cases clause with
      | spatial s => exact absurd rfl hch
      | _ => rfl) clauses).symm
  rw [hspatial, Clause.filter_flatMap_contribution]
  refine Clause.forall₂_filterMap_spatial? fun member hmember => ?_
  obtain ⟨hmember, hch⟩ := List.mem_filter.1 hmember
  exact Clause.exists_contribution_spatial haccepted hmember (of_decide_eq_true hch)

/-- The geometries that a statement takes as texts are read back as those of the document. -/
theorem forall₂_bindsGeometry {members : List (String × Json)} {f : Filter}
    (hmembers : Json.Readable Json.maxDepth (.object members))
    (h : ofJson (.object members) = .ok f) :
    List.Forall₂ Spatial.BindsGeometry
      ((Clause.unwrapped members).filter fun member => Channel.ofMember member = .spatial)
      f.spatial := by
  have hreadable : ∀ member ∈ (Clause.unwrapped members).filter fun member =>
      Channel.ofMember member = .spatial, Json.Readable Json.maxDepth member.2 :=
    fun member hmember => hmembers.unwrapped member (List.mem_of_mem_filter hmember)
  refine ((List.forall₂_and_left _ _).2 ⟨hreadable, forall₂_geometryMember? h⟩).imp ?_
  rintro member s ⟨hmember, hgeometry⟩
  exact ⟨s.geometry.write, fun column => s.head?_binds_render column,
    Json.ofText?_write (hmember.geometryMember? hgeometry), hgeometry⟩

end Filter

/-! ### Documents that have been read -/

/-- **A document that has been read survives writing.** So writing what has been read is idempotent,
and documents with the same text are the same. The geometries of a filter survive in the statement:
there is one restriction for each spatial member, and what it binds is read back as the geometry of
this member. -/
theorem Json.ofBytes?_write_of_ofBytes? {bytes : ByteArray} {n : Json}
    (h : ofBytes? bytes = some n) :
    ofBytes? n.write.toUTF8 = some n ∧
      (compact? bytes >>= compact?) = compact? bytes ∧
      (∀ bytes' n', ofBytes? bytes' = some n' → n'.write = n.write → n' = n) ∧
      ∀ members f, n = object members → Filter.ofJson n = .ok f →
        List.Forall₂ Spatial.BindsGeometry
          ((Clause.unwrapped members).filter fun member => Channel.ofMember member = .spatial)
          f.spatial := by
  have hreadable := readable_of_ofBytes? h
  refine ⟨ofBytes?_write hreadable, ?_, ?_, ?_⟩
  · have hfirst : compact? bytes = some n.write.toUTF8 := by rw [compact?, h, Option.map_some]
    have hagain : compact? n.write.toUTF8 = some n.write.toUTF8 := by
      rw [compact?, ofBytes?_write hreadable, Option.map_some]
    rw [hfirst]
    exact hagain
  · exact fun bytes' n' h' => eq_of_write_eq (readable_of_ofBytes? h') hreadable
  · rintro members f rfl hf
    exact Filter.forall₂_bindsGeometry hreadable hf

/-- Blanks, a repeated name, an exponent that is not in normal form, and escapes for a letter, a
surrogate pair and a control character, all in the geometry of a filter. -/
theorem Json.ofBytes?_write_of_ofBytes?_escapes :
    ∃ bytes n, bytes = ("\x7b\"g\" : \x7b\"$within\": \x7b\"$geometry\": \x7b\"x\":-0.50E3," ++
          "\"x\":\"\\u00e9\\ud83d\\ude00\\u0007\"\x7d\x7d\x7d\x7d").toUTF8 ∧
      n = object [("g", .object [("$within", .object [("$geometry", .object
        [("x", .number ⟨true, 0, [5, 0], some ⟨false, 3, []⟩⟩), ("x", .string "é😀\x07")])])])] ∧
      ofBytes? bytes = some n ∧ ofBytes? n.write.toUTF8 = some n ∧
      (compact? bytes >>= compact?) = compact? bytes ∧
      (∀ bytes' n', ofBytes? bytes' = some n' → n'.write = n.write → n' = n) ∧
      ∃ members f, n = object members ∧ Filter.ofJson n = .ok f ∧ f.spatial.length = 1 ∧
        List.Forall₂ Spatial.BindsGeometry
          ((Clause.unwrapped members).filter fun member => Channel.ofMember member = .spatial)
          f.spatial := by
  refine ⟨_, _, rfl, rfl, ?_⟩
  generalize hn : Json.object [("g", .object [("$within", .object [("$geometry", .object
    [("x", .number ⟨true, 0, [5, 0], some ⟨false, 3, []⟩⟩), ("x", .string "é😀\x07")])])])] = n
  have hfilter : (Filter.ofJson n).toOption.map (fun f => f.spatial.length) = some 1 := by
    subst hn
    decide +kernel
  have hreadable : Readable maxDepth n := by
    subst hn
    simp [Readable, maxDepth, numberKey]
  have hwrite : (ofText? ("\x7b\"g\" : \x7b\"$within\": \x7b\"$geometry\": \x7b\"x\":-0.50E3," ++
      "\"x\":\"\\u00e9\\ud83d\\ude00\\u0007\"\x7d\x7d\x7d\x7d")).map write = some n.write := by
    subst hn
    decide +kernel
  obtain ⟨n', hread, hsame⟩ := Option.map_eq_some_iff.1 hwrite
  obtain rfl := eq_of_write_eq (readable_of_ofText? hread) hreadable hsame
  have hbytes := (ofBytes?_toUTF8 _).trans hread
  obtain ⟨f, hf, hlength⟩ := exists_of_toOption_map hfilter
  obtain ⟨hwritten, hcompact, hunique, hgeometry⟩ := ofBytes?_write_of_ofBytes? hbytes
  exact ⟨hbytes, hwritten, hcompact, hunique, _, f, hn.symm, hf, hlength,
    hgeometry _ f hn.symm hf⟩

end DocFilter
