import DocFilter.Compiler
import DocFilter.Proofs.Json.Values
import Mathlib.Data.List.Induction

/-!
# Repeated names

A document may repeat a name in an object. Read into maps, it becomes the document in which every
object keeps, for a repeated name, the last value at the place of the first. So the two ways to read
a filter agree wherever no name is repeated, and they always refuse the same texts.

## Main definitions

* `Json.collapse`: the document without its repeated names.
* `Json.Distinct`: no object repeats a name, at any depth.

## Main results

* `Json.foldl_put`: members that are entered one by one.
* `Json.collapse_eq_self_iff`: the documents that collapsing leaves as they are.
* `Json.readMaps_eq`: reading into maps is reading and collapsing.
* `Compiler.compileCollapsed_eq`: what the two ways to compile a filter have in common.
-/

namespace DocFilter

namespace Json

/-! ### Collapsing -/

/-- Members without repeated names: a name keeps its first place and takes its last value. -/
def lastValues : List (String × Json) → List (String × Json)
  | [] => []
  | (key, value) :: members =>
    (key, ((lastValues members).lookup key).getD value) ::
      (lastValues members).filter fun member => member.1 != key

mutual

/-- The document in which every object keeps, for a repeated name, the last value at the place of
the first. -/
def collapse : Json → Json
  | array items => array (collapseItems items)
  | object members => object (lastValues (collapseMembers members))
  | scalar => scalar

/-- The items of an array, collapsed one by one. -/
def collapseItems : List Json → List Json
  | [] => []
  | item :: items => item.collapse :: collapseItems items

/-- The members of an object with their values collapsed; names may still repeat. -/
def collapseMembers : List (String × Json) → List (String × Json)
  | [] => []
  | (key, value) :: members => (key, value.collapse) :: collapseMembers members

end

/-- No object repeats a name, at any depth. -/
inductive Distinct : Json → Prop
  | scalar {n : Json} (h : n.isScalar) : Distinct n
  | array {items : List Json} (h : ∀ item ∈ items, Distinct item) : Distinct (array items)
  | object {members : List (String × Json)} (hnames : (members.map Prod.fst).Nodup)
      (h : ∀ member ∈ members, Distinct member.2) : Distinct (object members)

theorem collapse_of_isScalar {n : Json} (h : n.isScalar) : n.collapse = n := by
  cases n with
  | array items => cases h
  | object members => cases h
  | _ => rfl

/-- Only a string collapses to a string. -/
theorem collapse_eq_string_iff {n : Json} {s : String} : n.collapse = string s ↔ n = string s := by
  cases n <;> simp [collapse]

/-! ### Members without repeated names -/

theorem mem_lastValues {members : List (String × Json)} {member : String × Json}
    (h : member ∈ lastValues members) : member ∈ members := by
  induction members generalizing member with
  | nil => exact h
  | cons first members ih =>
    obtain ⟨key, value⟩ := first
    rcases List.mem_cons.1 h with rfl | h
    · cases hlookup : (lastValues members).lookup key with
      | none => exact List.mem_cons_self
      | some last =>
        obtain ⟨before, after, hmembers, -⟩ := List.lookup_eq_some_iff.1 hlookup
        exact List.mem_cons_of_mem _ (ih (by simp [hmembers]))
    · exact List.mem_cons_of_mem _ (ih (List.mem_filter.1 h).1)

theorem nodup_lastValues : (members : List (String × Json)) →
    ((lastValues members).map Prod.fst).Nodup
  | [] => List.nodup_nil
  | (key, value) :: members => by
      rw [lastValues, List.map_cons, List.nodup_cons]
      refine ⟨?_, (nodup_lastValues members).sublist (List.filter_sublist.map Prod.fst)⟩
      simp

theorem lastValues_eq_self {members : List (String × Json)}
    (h : (members.map Prod.fst).Nodup) : lastValues members = members := by
  induction members with
  | nil => rfl
  | cons member members ih =>
    obtain ⟨key, value⟩ := member
    obtain ⟨hkey, hnames⟩ := List.nodup_cons.1 h
    have hother (member : String × Json) (hmember : member ∈ members) : member.1 ≠ key :=
      fun heq => hkey (List.mem_map.2 ⟨member, hmember, heq⟩)
    have hlookup : members.lookup key = none :=
      List.lookup_eq_none_iff.2 fun member hmember => by simpa using (hother member hmember).symm
    have hfilter : members.filter (fun member => member.1 != key) = members :=
      List.filter_eq_self.2 fun member hmember => by simpa using hother member hmember
    rw [lastValues, ih hnames, hlookup, hfilter, Option.getD_none]

theorem lookup_put (key : String) (value : Json) (members : List (String × Json)) (name : String) :
    (put key value members).lookup name =
      if name = key then some value else members.lookup name := by
  induction members with
  | nil => grind [put]
  | cons member members ih => grind [put]

/-- The other members are not changed by a new value. -/
theorem filter_put_self (key : String) (value : Json) (members : List (String × Json)) :
    (put key value members).filter (fun member => member.1 != key) =
      members.filter fun member => member.1 != key := by
  induction members with
  | nil => simp [put]
  | cons member members ih =>
    obtain ⟨k, v⟩ := member
    by_cases hk : k = key <;> simp [put, hk, ih]

theorem filter_put_of_ne {key name : String} (h : name ≠ key) (value : Json)
    (members : List (String × Json)) :
    (put key value members).filter (fun member => member.1 != name) =
      put key value (members.filter fun member => member.1 != name) := by
  induction members with
  | nil => simp [put, h.symm]
  | cons member members ih =>
    obtain ⟨k, v⟩ := member
    by_cases hk : k = key
    · simp [put, hk, h.symm]
    · by_cases hname : k = name
      · simp [put, hname, h, ih]
      · simp [put, hk, hname, ih]

/-- A last member is entered into the members before it. -/
theorem lastValues_concat (key : String) (value : Json) : (members : List (String × Json)) →
    lastValues (members ++ [(key, value)]) = put key value (lastValues members)
  | [] => rfl
  | (k, v) :: members => by
      rw [List.cons_append, lastValues, lastValues_concat key value members, lookup_put, lastValues,
        put]
      by_cases hk : k = key
      · rw [if_pos hk, if_pos hk, hk, filter_put_self, Option.getD_some]
      · rw [if_neg hk, if_neg hk, filter_put_of_ne hk]

/-- **Members that are entered one by one** keep for each name the first place and the last
value. -/
theorem foldl_put (members : List (String × Json)) :
    members.foldl (fun kept member => put member.1 member.2 kept) [] = lastValues members := by
  induction members using List.reverseRecOn with
  | nil => rfl
  | append_singleton members member ih =>
    rw [List.foldl_append, ih, List.foldl_cons, List.foldl_nil, lastValues_concat]

/-! ### Documents without repeated names -/

theorem collapseItems_eq_map (items : List Json) : collapseItems items = items.map collapse := by
  induction items with
  | nil => rfl
  | cons item items ih => rw [collapseItems, ih, List.map_cons]

theorem collapseMembers_eq_map (members : List (String × Json)) :
    collapseMembers members = members.map fun member => (member.1, member.2.collapse) := by
  induction members with
  | nil => rfl
  | cons member members ih => rw [collapseMembers, ih, List.map_cons]

mutual

/-- **Collapsing leaves no repeated name.** -/
theorem distinct_collapse : (n : Json) → n.collapse.Distinct
  | array items => .array (distinct_collapseItems items)
  | object members =>
    .object (nodup_lastValues _) fun member hmember =>
      distinct_collapseMembers members member (mem_lastValues hmember)
  | null => .scalar rfl
  | bool _ => .scalar rfl
  | number _ => .scalar rfl
  | string _ => .scalar rfl

theorem distinct_collapseItems : (items : List Json) → ∀ item ∈ collapseItems items, item.Distinct
  | [] => List.forall_mem_nil _
  | item :: items => List.forall_mem_cons.2 ⟨distinct_collapse item, distinct_collapseItems items⟩

theorem distinct_collapseMembers : (members : List (String × Json)) →
    ∀ member ∈ collapseMembers members, member.2.Distinct
  | [] => List.forall_mem_nil _
  | (_, value) :: members =>
    List.forall_mem_cons.2 ⟨distinct_collapse value, distinct_collapseMembers members⟩

end

theorem Distinct.collapse_eq_self {n : Json} (h : n.Distinct) : n.collapse = n := by
  induction h with
  | scalar h => exact collapse_of_isScalar h
  | array _ ih =>
    rw [collapse, collapseItems_eq_map, (List.map_congr_left ih).trans (List.map_id' _)]
  | @object members hnames _ ih =>
    have hmembers : collapseMembers members = members := by
      rw [collapseMembers_eq_map]
      exact (List.map_congr_left fun member hmember => by rw [ih member hmember]).trans
        (List.map_id' _)
    rw [collapse, hmembers, lastValues_eq_self hnames]

/-- **Collapsing changes a document exactly if it repeats a name.** -/
theorem collapse_eq_self_iff {n : Json} : n.collapse = n ↔ n.Distinct := by
  refine ⟨fun h => ?_, Distinct.collapse_eq_self⟩
  rw [← h]
  exact distinct_collapse n

/-! ### Reading into maps -/

/-- What may stand behind a member. -/
theorem behind_cases (cs : List Char) :
    (∃ rest, cs = '\x7d' :: rest) ∨ (∃ rest, cs = ',' :: rest) ∨
      (∀ rest, cs = '\x7d' :: rest → False) ∧ ∀ rest, cs = ',' :: rest → False := by
  by_cases hclose : ∃ rest, cs = '\x7d' :: rest
  · exact .inl hclose
  · by_cases hcomma : ∃ rest, cs = ',' :: rest
    · exact .inr (.inl hcomma)
    · exact .inr (.inr ⟨not_exists.1 hclose, not_exists.1 hcomma⟩)

section Members

variable {value : List Char → Option (Json × List Char)} {bound : Nat} {name : String}
  {member : Json} {cs cs' rest rest' : List Char}

theorem readMembers_eq_none (h : readName cs = none) : readMembers value bound cs = none := by
  cases bound with
  | zero => rfl
  | succ bound => rw [readMembers, h]; rfl

theorem readMembers_no_value (hname : readName cs = some (name, rest))
    (hmember : value rest = none) : readMembers value (bound + 1) cs = none := by
  simp [readMembers, hname, hmember]

theorem readMembers_close (hname : readName cs = some (name, rest))
    (hmember : value rest = some (member, cs')) (hbehind : skipSpace cs' = '\x7d' :: rest') :
    readMembers value (bound + 1) cs = some ([(name, member)], rest') := by
  simp [readMembers, hname, hmember, hbehind]

theorem readMembers_comma (hname : readName cs = some (name, rest))
    (hmember : value rest = some (member, cs')) (hbehind : skipSpace cs' = ',' :: rest') :
    readMembers value (bound + 1) cs =
      (readMembers value bound rest').map (Prod.map ((name, member) :: ·) id) := by
  rcases hmembers : readMembers value bound rest' with _ | ⟨members, rest''⟩ <;>
    simp [readMembers, hname, hmember, hbehind, hmembers]

theorem readMembers_stop (hname : readName cs = some (name, rest))
    (hmember : value rest = some (member, cs'))
    (hclose : ∀ rest', skipSpace cs' = '\x7d' :: rest' → False)
    (hcomma : ∀ rest', skipSpace cs' = ',' :: rest' → False) :
    readMembers value (bound + 1) cs = none := by
  rw [readMembers, hname]
  simp [hmember]

/-- The first member has the first name. -/
theorem exists_cons_of_readMembers {members : List (String × Json)}
    (hname : readName cs = some (name, rest))
    (h : readMembers value bound cs = some (members, rest')) :
    ∃ member others, members = (name, member) :: others := by
  cases bound with
  | zero => cases h
  | succ bound =>
    obtain ⟨read, hread, h⟩ := Option.bind_eq_some_iff.1 h
    obtain rfl := Option.some.inj (hread.symm.trans hname)
    obtain ⟨⟨member, cs'⟩, -, h⟩ := Option.bind_eq_some_iff.1 h
    dsimp only at h
    split at h
    · obtain ⟨rfl, -⟩ := Prod.mk.inj (Option.some.inj h)
      exact ⟨_, _, rfl⟩
    · obtain ⟨⟨others, _⟩, -, h⟩ := Option.bind_eq_some_iff.1 h
      obtain ⟨rfl, -⟩ := Prod.mk.inj (Option.some.inj h)
      exact ⟨_, _, rfl⟩
    · cases h

theorem ne_nil_of_readMembers {members : List (String × Json)}
    (h : readMembers value bound cs = some (members, rest)) : members ≠ [] := by
  cases hname : readName cs with
  | none =>
    rw [readMembers_eq_none hname] at h
    cases h
  | some read =>
    obtain ⟨member, others, rfl⟩ := exists_cons_of_readMembers hname h
    exact List.cons_ne_nil _ _

theorem readObject_close (h : skipSpace cs = '\x7d' :: rest) :
    readObject value cs = some (object [], rest) := by
  simp [readObject, h]

theorem readObject_members (h : ∀ rest, skipSpace cs = '\x7d' :: rest → False) :
    readObject value cs =
      (readMembers value (skipSpace cs).length (skipSpace cs)).bind fun (members, rest) =>
        (ofMembers? members).bind fun n => some (n, rest) := by
  rw [readObject]
  split
  · next hclose => exact absurd hclose (h _)
  · rfl

end Members

section Read

variable {value value' : List Char → Option (Json × List Char)}
  (hvalue : ∀ cs, value' cs = (value cs).map (Prod.map collapse id))

include hvalue

theorem readItems_collapse (bound : Nat) (cs : List Char) :
    readItems value' bound cs = (readItems value bound cs).map (Prod.map collapseItems id) := by
  induction bound generalizing cs with
  | zero => rfl
  | succ bound ih =>
    rw [readItems, readItems, hvalue]
    cases value cs with
    | none => rfl
    | some read =>
      obtain ⟨item, cs'⟩ := read
      simp only [Option.map_some, Option.bind_eq_bind, Option.bind_some, Prod.map, id]
      split
      · rfl
      · next rest _ =>
        rw [ih]
        cases readItems value bound rest <;> rfl
      · rfl

theorem readArray_collapse (cs : List Char) :
    readArray value' cs = (readArray value cs).map (Prod.map collapse id) := by
  unfold readArray
  split
  · rfl
  · rw [readItems_collapse hvalue]
    cases readItems value (skipSpace cs).length (skipSpace cs) <;> rfl

/-- The members from a name on, read into a map. -/
theorem readEntries_eq {bound : Nat} {kept : List (String × Json)} {name : String}
    {cs rest : List Char} (hname : readName cs = some (name, rest)) :
    readEntries value' bound kept name rest =
      (readMembers value bound cs).map (Prod.map
        (fun members => (collapseMembers members).foldl
          (fun kept member => put member.1 member.2 kept) kept) id) := by
  induction bound generalizing kept name cs rest with
  | zero => rfl
  | succ bound ih =>
    rw [readEntries, hvalue]
    cases hmember : value rest with
    | none => rw [readMembers_no_value hname hmember]; rfl
    | some read =>
      obtain ⟨member, cs'⟩ := read
      simp only [Option.map_some, Option.bind_eq_bind, Option.bind_some, Prod.map, id]
      split
      · next hbehind => rw [readMembers_close hname hmember hbehind]; rfl
      · next rest' hbehind =>
        rw [readMembers_comma hname hmember hbehind]
        cases hnext : readName rest' with
        | none => rw [readMembers_eq_none hnext]; rfl
        | some read =>
          obtain ⟨next, rest''⟩ := read
          rw [Option.bind_some, ih hnext]
          cases readMembers value bound rest' <;> rfl
      · next hclose hcomma => rw [readMembers_stop hname hmember hclose hcomma]; rfl

/-- An object that stands for a number has one member, so that no name is repeated. -/
theorem readNumber_eq {cs rest : List Char} (hname : readName cs = some (numberKey, rest))
    (bound : Nat) :
    readNumber value' rest =
      ((readMembers value (bound + 1) cs).bind fun (members, rest) =>
        (ofMembers? members).bind fun n => some (n, rest)).map (Prod.map collapse id) := by
  rw [readNumber, hvalue]
  cases hmember : value rest with
  | none => rw [readMembers_no_value hname hmember]; rfl
  | some read =>
    obtain ⟨member, cs'⟩ := read
    simp only [Option.map_some, Option.bind_eq_bind, Option.bind_some, Prod.map, id]
    split
    · next s rest' hstring hbehind =>
      obtain rfl := collapse_eq_string_iff.1 hstring
      rw [readMembers_close hname hmember hbehind]
      cases hnumeral : Numeral.ofText? s <;> simp [ofMembers?, hnumeral, collapse]
    · next hother =>
      rcases behind_cases (skipSpace cs') with
        ⟨rest', hbehind⟩ | ⟨rest', hbehind⟩ | ⟨hclose, hcomma⟩
      · have hstring (s : String) : member ≠ string s := fun heq =>
          hother s rest' (collapse_eq_string_iff.2 heq) hbehind
        rw [readMembers_close hname hmember hbehind]
        cases member with
        | string s => exact absurd rfl (hstring s)
        | _ => simp [ofMembers?]
      · rw [readMembers_comma hname hmember hbehind]
        rcases hmembers : readMembers value bound rest' with _ | ⟨others, rest''⟩
        · rfl
        · obtain ⟨other, others, rfl⟩ := List.exists_cons_of_ne_nil (ne_nil_of_readMembers hmembers)
          simp [ofMembers?]
      · rw [readMembers_stop hname hmember hclose hcomma]; rfl

/-- **What follows an opening brace is read into a map.** -/
theorem readMap_collapse (cs : List Char) :
    readMap value' cs = (readObject value cs).map (Prod.map collapse id) := by
  unfold readMap
  split
  · next hclose => rw [readObject_close hclose]; rfl
  · next hclose =>
    rw [readObject_members hclose]
    generalize skipSpace cs = cs
    cases hname : readName cs with
    | none => rw [readMembers_eq_none hname]; rfl
    | some read =>
      obtain ⟨first, rest⟩ := read
      simp only [Option.bind_eq_bind, Option.bind_some]
      split
      · next hfirst =>
        subst hfirst
        cases cs with
        | nil => cases hname
        | cons c cs => rw [readNumber_eq hvalue hname cs.length, List.length_cons]
      · next hfirst =>
        rw [readEntries_eq hvalue hname]
        rcases hmembers : readMembers value cs.length cs with _ | ⟨members, rest'⟩
        · rfl
        · obtain ⟨member, others, rfl⟩ := exists_cons_of_readMembers hname hmembers
          simp [ofMembers?, hfirst, collapse, foldl_put]

end Read

theorem readScalar_collapse (cs : List Char) :
    readScalar cs = (readScalar cs).map (Prod.map collapse id) := by
  rcases hscalar : readScalar cs with _ | ⟨n, rest⟩
  · rfl
  · rw [Option.map_some, Prod.map, collapse_of_isScalar (isScalar_of_readScalar hscalar), id]

/-- **Reading into maps is reading and collapsing.** -/
theorem readMaps_eq (depth : Nat) (cs : List Char) :
    readMaps depth cs = (readValue depth cs).map (Prod.map collapse id) := by
  unfold readMaps readValue
  induction depth generalizing cs with
  | zero =>
    rw [readNested.eq_def, readNested.eq_def]
    split
    · rfl
    · rfl
    · exact readScalar_collapse _
  | succ depth ih =>
    rw [readNested.eq_def, readNested.eq_def]
    split
    · exact readArray_collapse ih _
    · exact readMap_collapse ih _
    · exact readScalar_collapse _

/-- The documents that texts are, with their objects read into maps. -/
theorem mapsOfBytes?_eq (bytes : ByteArray) :
    mapsOfBytes? bytes = (ofBytes? bytes).map collapse := by
  unfold mapsOfBytes? ofBytes?
  cases String.fromUTF8? bytes with
  | none => rfl
  | some s =>
    simp only [Option.bind_eq_bind, Option.bind_some, ofText?, ofChars?, whole?, readMaps_eq]
    rcases readValue maxDepth s.toList with _ | ⟨n, rest⟩
    · rfl
    · simp only [Option.map_some, Prod.map, id]
      split <;> rfl

end Json

/-! ### Compiling -/

/-- **The two ways to compile a filter.** A filter that is read into maps is compiled as the
document without its repeated names, and a text that is no document is refused either way. So both
ways give the same on every text that repeats no name, be it a statement or an error. Collapsing a
second time changes nothing, and the documents that it leaves as they are repeat no name. -/
theorem Compiler.compileCollapsed_eq (c : Compiler) (bytes : ByteArray) :
    (∀ n, Json.ofBytes? bytes = some n → c.compileCollapsed bytes = c.compileJson n.collapse) ∧
      (Json.ofBytes? bytes = none →
        c.compileCollapsed bytes = .error .invalidJson ∧
          c.compileBytes bytes = .error .invalidJson) ∧
      ((∀ n, Json.ofBytes? bytes = some n → n.Distinct) →
        c.compileCollapsed bytes = c.compileBytes bytes) ∧
      ∀ n : Json, n.collapse.collapse = n.collapse ∧ (n.collapse = n ↔ n.Distinct) := by
  have hmaps := Json.mapsOfBytes?_eq bytes
  refine ⟨?_, ?_, ?_, fun n => ⟨(Json.distinct_collapse n).collapse_eq_self,
    Json.collapse_eq_self_iff⟩⟩
  · intro n hread
    rw [compileCollapsed, hmaps, hread]
    rfl
  · intro hread
    rw [compileCollapsed, compileBytes, hmaps, hread]
    exact ⟨rfl, rfl⟩
  · intro hdistinct
    rw [compileCollapsed, compileBytes, hmaps]
    cases hread : Json.ofBytes? bytes with
    | none => rfl
    | some n => rw [Option.map_some, (hdistinct n hread).collapse_eq_self]

-- the last value stands at the first place, and inner objects are collapsed as well
example :
    ((Json.readMaps 2 "\x7b\"a\":1,\"b\":\x7b\"c\":2,\"c\":3\x7d,\"a\":4\x7d".toList).map
      fun (n, _) => n.write) = some "\x7b\"a\":4,\"b\":\x7b\"c\":3\x7d\x7d" := by
  decide +kernel

end DocFilter
