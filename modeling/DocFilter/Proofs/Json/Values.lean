import DocFilter.Proofs.Json.Tokens

/-!
# Documents of JSON

What the writer of JSON writes for a document is read back, if the document is one that can be read
at all. Two rules of the reader keep documents out: it stops below a given depth, and it takes an
object whose first name is `numberKey` for a number. Every document that the reader makes obeys
them.

## Main definitions

* `Json.Readable`: the documents that can be read where a given depth is left.
* `Json.Closes`: a text that may follow an item of an array or a member of an object.

## Main results

* `Json.readable_of_readValue`: what has been read is readable.
* `Json.readValue_write`: the text of a readable document is read back.
* `Json.ofText?_write`: the case of a whole text.
-/

namespace DocFilter.Json

/-- The documents in which arrays and objects nest at most `depth` deep, and no object starts with
the name that makes it a number. -/
def Readable : Nat → Json → Prop
  | 0, array _ => False
  | 0, object _ => False
  | depth + 1, array items => ∀ item ∈ items, Readable depth item
  | depth + 1, object members =>
    members.head?.map Prod.fst ≠ some numberKey ∧ ∀ member ∈ members, Readable depth member.2
  | _, _ => True

theorem Readable.of_isScalar {n : Json} (h : n.isScalar) (depth : Nat) : Readable depth n := by
  cases n with
  | array items => cases h
  | object members => cases h
  | _ => cases depth <;> trivial

theorem Readable.succ {depth : Nat} {n : Json} (h : Readable depth n) : Readable (depth + 1) n := by
  induction depth generalizing n with
  | zero =>
    cases n with
    | array items => exact h.elim
    | object members => exact h.elim
    | _ => exact .of_isScalar rfl _
  | succ depth ih =>
    cases n with
    | array items => exact fun item hitem => ih (h item hitem)
    | object members => exact ⟨h.1, fun member hmember => ih (h.2 member hmember)⟩
    | _ => exact .of_isScalar rfl _

/-! ### What has been read -/

theorem isScalar_of_readScalar {cs rest : List Char} {n : Json}
    (h : readScalar cs = some (n, rest)) : n.isScalar := by
  unfold readScalar at h
  split at h
  · obtain ⟨rfl, -⟩ := Prod.mk.inj (Option.some.inj h)
    rfl
  · obtain ⟨rfl, -⟩ := Prod.mk.inj (Option.some.inj h)
    rfl
  · obtain ⟨rfl, -⟩ := Prod.mk.inj (Option.some.inj h)
    rfl
  · obtain ⟨⟨s, rest'⟩, -, h⟩ := Option.map_eq_some_iff.1 h
    obtain ⟨rfl, -⟩ := Prod.mk.inj h
    rfl
  · obtain ⟨⟨numeral, rest'⟩, -, h⟩ := Option.map_eq_some_iff.1 h
    obtain ⟨rfl, -⟩ := Prod.mk.inj h
    rfl

/-- Members make an object, unless the first name makes them a number. -/
theorem ofMembers?_eq_some {members : List (String × Json)} {n : Json}
    (h : ofMembers? members = some n) :
    n.isScalar ∨ n = object members ∧ members.head?.map Prod.fst ≠ some numberKey := by
  unfold ofMembers? at h
  split at h
  · split at h
    · split at h
      · obtain ⟨numeral, -, rfl⟩ := Option.map_eq_some_iff.1 h
        exact .inl rfl
      · cases h
    · next hname =>
      refine .inr ⟨(Option.some.inj h).symm, ?_⟩
      simpa using hname
  · exact .inr ⟨(Option.some.inj h).symm, nofun⟩

section Read

variable {value : List Char → Option (Json × List Char)} {P : Json → Prop}

theorem forall_of_readItems (hvalue : ∀ cs n rest, value cs = some (n, rest) → P n) {bound : Nat}
    {cs rest : List Char} {items : List Json} (h : readItems value bound cs = some (items, rest)) :
    ∀ item ∈ items, P item := by
  induction bound generalizing cs items rest with
  | zero => cases h
  | succ bound ih =>
    obtain ⟨⟨item, cs'⟩, hitem, h⟩ := Option.bind_eq_some_iff.1 h
    dsimp only at h
    split at h
    · obtain ⟨rfl, -⟩ := Prod.mk.inj (Option.some.inj h)
      exact List.forall_mem_singleton.2 (hvalue _ _ _ hitem)
    · obtain ⟨⟨others, rest'⟩, hothers, h⟩ := Option.bind_eq_some_iff.1 h
      obtain ⟨rfl, -⟩ := Prod.mk.inj (Option.some.inj h)
      exact List.forall_mem_cons.2 ⟨hvalue _ _ _ hitem, ih hothers⟩
    · cases h

theorem forall_of_readMembers (hvalue : ∀ cs n rest, value cs = some (n, rest) → P n) {bound : Nat}
    {cs rest : List Char} {members : List (String × Json)}
    (h : readMembers value bound cs = some (members, rest)) : ∀ member ∈ members, P member.2 := by
  induction bound generalizing cs members rest with
  | zero => cases h
  | succ bound ih =>
    obtain ⟨⟨name, cs'⟩, -, h⟩ := Option.bind_eq_some_iff.1 h
    obtain ⟨⟨member, cs'⟩, hmember, h⟩ := Option.bind_eq_some_iff.1 h
    dsimp only at h
    split at h
    · obtain ⟨rfl, -⟩ := Prod.mk.inj (Option.some.inj h)
      exact List.forall_mem_singleton.2 (hvalue _ _ _ hmember)
    · obtain ⟨⟨others, rest'⟩, hothers, h⟩ := Option.bind_eq_some_iff.1 h
      obtain ⟨rfl, -⟩ := Prod.mk.inj (Option.some.inj h)
      exact List.forall_mem_cons.2 ⟨hvalue _ _ _ hmember, ih hothers⟩
    · cases h

theorem forall_of_readArray (hvalue : ∀ cs n rest, value cs = some (n, rest) → P n)
    {cs rest : List Char} {n : Json} (h : readArray value cs = some (n, rest)) :
    ∃ items, n = array items ∧ ∀ item ∈ items, P item := by
  unfold readArray at h
  split at h
  · obtain ⟨rfl, -⟩ := Prod.mk.inj (Option.some.inj h)
    exact ⟨[], rfl, nofun⟩
  · obtain ⟨⟨items, rest'⟩, hitems, h⟩ := Option.bind_eq_some_iff.1 h
    obtain ⟨rfl, -⟩ := Prod.mk.inj (Option.some.inj h)
    exact ⟨items, rfl, forall_of_readItems hvalue hitems⟩

theorem forall_of_readObject (hvalue : ∀ cs n rest, value cs = some (n, rest) → P n)
    {cs rest : List Char} {n : Json} (h : readObject value cs = some (n, rest)) :
    n.isScalar ∨ ∃ members, n = object members ∧
      members.head?.map Prod.fst ≠ some numberKey ∧ ∀ member ∈ members, P member.2 := by
  unfold readObject at h
  split at h
  · obtain ⟨rfl, -⟩ := Prod.mk.inj (Option.some.inj h)
    exact .inr ⟨[], rfl, nofun, nofun⟩
  · obtain ⟨⟨members, rest'⟩, hmembers, h⟩ := Option.bind_eq_some_iff.1 h
    obtain ⟨n', hn, h⟩ := Option.bind_eq_some_iff.1 h
    obtain ⟨rfl, -⟩ := Prod.mk.inj (Option.some.inj h)
    refine (ofMembers?_eq_some hn).imp_right fun ⟨hobject, hname⟩ => ?_
    exact ⟨members, hobject, hname, forall_of_readMembers hvalue hmembers⟩

end Read

/-- **What has been read is readable.** -/
theorem readable_of_readValue {depth : Nat} {cs rest : List Char} {n : Json}
    (h : readValue depth cs = some (n, rest)) : Readable depth n := by
  induction depth generalizing cs rest n with
  | zero =>
    unfold readValue readNested at h
    split at h
    · cases h
    · cases h
    · exact .of_isScalar (isScalar_of_readScalar h) 0
  | succ depth ih =>
    unfold readValue readNested at h
    split at h
    · obtain ⟨items, rfl, hitems⟩ := forall_of_readArray (fun _ _ _ => ih) h
      exact hitems
    · rcases forall_of_readObject (fun _ _ _ => ih) h with hscalar | ⟨members, rfl, hmembers⟩
      · exact .of_isScalar hscalar _
      · exact hmembers
    · exact .of_isScalar (isScalar_of_readScalar h) _

/-! ### Texts of documents -/

/-- A text that may follow an item of an array or a member of an object. -/
def Closes (rest : List Char) : Prop :=
  ∀ c ∈ rest.head?, c = ',' ∨ c = ']' ∨ c = '\x7d'

theorem Closes.ends {rest : List Char} (h : Closes rest) : Numeral.Ends rest := by
  intro c hc
  rcases h c hc with rfl | rfl | rfl <;> decide

theorem skipSpace_cons {c : Char} (h : c ∉ [' ', '\t', '\n', '\r']) (cs : List Char) :
    skipSpace (c :: cs) = c :: cs := by
  simp only [List.mem_cons, List.not_mem_nil, or_false, not_or] at h
  simp [skipSpace, h]

theorem toList_quote (s : String) : (quote s).toList = '"' :: (escape s.toList ++ ['"']) := by
  simp [quote]

theorem toList_write_array (item : Json) (items : List Json) :
    (array (item :: items)).write.toList =
      '[' :: (item.write.toList ++ (writeItems items).toList) := by
  simp [write]

theorem toList_write_object (key : String) (v : Json) (members : List (String × Json)) :
    (object ((key, v) :: members)).write.toList =
      '\x7b' :: ((quote key).toList ++
        ':' :: (v.write.toList ++ (writeMembers members).toList)) := by
  simp [write]

theorem toList_writeItems_cons (item : Json) (items : List Json) :
    (writeItems (item :: items)).toList =
      ',' :: (item.write.toList ++ (writeItems items).toList) := by
  simp [writeItems]

theorem toList_writeMembers_cons (key : String) (v : Json) (members : List (String × Json)) :
    (writeMembers ((key, v) :: members)).toList =
      ',' :: ((quote key).toList ++ ':' :: (v.write.toList ++ (writeMembers members).toList)) := by
  simp [writeMembers]

theorem closes_writeItems (items : List Json) (rest : List Char) :
    Closes ((writeItems items).toList ++ rest) := by
  cases items with
  | nil => rintro c ⟨⟩; decide
  | cons item items => rw [toList_writeItems_cons]; rintro c ⟨⟩; decide

theorem closes_writeMembers (members : List (String × Json)) (rest : List Char) :
    Closes ((writeMembers members).toList ++ rest) := by
  cases members with
  | nil => rintro c ⟨⟩; decide
  | cons member members => rw [toList_writeMembers_cons]; rintro c ⟨⟩; decide

/-- The text of a document starts with a character that is neither blank nor a closing bracket. -/
theorem exists_head_write (n : Json) :
    ∃ c cs, n.write.toList = c :: cs ∧ c ∉ [' ', '\t', '\n', '\r'] ∧ c ≠ ']' := by
  have hdigit {c : Char} (hc : c.isDigit) : c ∉ [' ', '\t', '\n', '\r'] ∧ c ≠ ']' := by
    simp only [List.mem_cons, List.not_mem_nil, or_false, not_or]
    refine ⟨⟨?_, ?_, ?_, ?_⟩, ?_⟩
    all_goals
      rintro rfl
      cases hc
  cases n with
  | null => exact ⟨'n', _, rfl, by decide⟩
  | bool b => cases b <;> exact ⟨_, _, rfl, by decide⟩
  | number n =>
    obtain ⟨c, cs, hcs, rfl | hc⟩ := n.exists_head_text
    · exact ⟨'-', cs, by rw [write, hcs], by decide⟩
    · exact ⟨c, cs, by rw [write, hcs], hdigit hc⟩
  | string s => exact ⟨'"', _, by rw [write, toList_quote], by decide⟩
  | array items =>
    cases items with
    | nil => exact ⟨'[', [']'], rfl, by decide⟩
    | cons item items => exact ⟨'[', _, toList_write_array item items, by decide⟩
  | object members =>
    cases members with
    | nil => exact ⟨'\x7b', ['\x7d'], rfl, by decide⟩
    | cons member members => exact ⟨'\x7b', _, toList_write_object _ _ members, by decide⟩

/-! ### Reading what has been written -/

section Written

variable {value : List Char → Option (Json × List Char)}

/-- The items of an array are read back by a reader that reads each of them back. -/
theorem readItems_write {item : Json} {items : List Json} {rest : List Char} {bound : Nat}
    (hvalue : ∀ n ∈ item :: items, ∀ rest, Closes rest →
      value (n.write.toList ++ rest) = some (n, rest)) (hbound : items.length < bound) :
    readItems value bound (item.write.toList ++ ((writeItems items).toList ++ rest)) =
      some (item :: items, rest) := by
  induction items generalizing item bound with
  | nil =>
    obtain ⟨bound, rfl⟩ := Nat.exists_eq_add_one_of_ne_zero (Nat.ne_zero_of_lt hbound)
    have hitem := hvalue item List.mem_cons_self _ (closes_writeItems [] rest)
    refine Option.bind_eq_some_iff.2 ⟨_, hitem, ?_⟩
    rfl
  | cons next items ih =>
    obtain ⟨bound, rfl⟩ := Nat.exists_eq_add_one_of_ne_zero (Nat.ne_zero_of_lt hbound)
    obtain ⟨hitem, hitems⟩ := List.forall_mem_cons.1 hvalue
    have hnext := ih hitems (Nat.lt_of_succ_lt_succ hbound)
    refine Option.bind_eq_some_iff.2 ⟨_, hitem _ (closes_writeItems (next :: items) rest), ?_⟩
    rw [toList_writeItems_cons, List.cons_append, List.append_assoc]
    dsimp only
    rw [skipSpace_cons (by decide)]
    exact Option.bind_eq_some_iff.2 ⟨_, hnext, rfl⟩

theorem readName_quote (key : String) (rest : List Char) :
    readName ((quote key).toList ++ ':' :: rest) = some (key, rest) := by
  rw [toList_quote, List.cons_append, List.append_assoc, List.singleton_append, readName,
    skipSpace_cons (by decide)]
  refine Option.bind_eq_some_iff.2 ⟨_, readString_escape key.toList (':' :: rest), ?_⟩
  dsimp only
  rw [skipSpace_cons (by decide), String.ofList_toList]
  rfl

/-- The members of an object are read back by a reader that reads each value back. -/
theorem readMembers_write {key : String} {v : Json} {members : List (String × Json)}
    {rest : List Char} {bound : Nat}
    (hvalue : ∀ member ∈ (key, v) :: members, ∀ rest, Closes rest →
      value (member.2.write.toList ++ rest) = some (member.2, rest))
    (hbound : members.length < bound) :
    readMembers value bound ((quote key).toList ++ ':' :: (v.write.toList ++
      ((writeMembers members).toList ++ rest))) = some ((key, v) :: members, rest) := by
  induction members generalizing key v bound with
  | nil =>
    obtain ⟨bound, rfl⟩ := Nat.exists_eq_add_one_of_ne_zero (Nat.ne_zero_of_lt hbound)
    have hmember := hvalue (key, v) List.mem_cons_self _ (closes_writeMembers [] rest)
    rw [readMembers, readName_quote]
    exact Option.bind_eq_some_iff.2 ⟨_, rfl, Option.bind_eq_some_iff.2 ⟨_, hmember, rfl⟩⟩
  | cons next members ih =>
    obtain ⟨bound, rfl⟩ := Nat.exists_eq_add_one_of_ne_zero (Nat.ne_zero_of_lt hbound)
    obtain ⟨hmember, hmembers⟩ := List.forall_mem_cons.1 hvalue
    have hnext := ih hmembers (Nat.lt_of_succ_lt_succ hbound)
    rw [readMembers, readName_quote]
    refine Option.bind_eq_some_iff.2 ⟨_, rfl, Option.bind_eq_some_iff.2
      ⟨_, hmember _ (closes_writeMembers (next :: members) rest), ?_⟩⟩
    rw [toList_writeMembers_cons]
    simp only [List.cons_append, List.append_assoc]
    rw [skipSpace_cons (by decide)]
    exact Option.bind_eq_some_iff.2 ⟨_, hnext, rfl⟩

theorem length_lt_writeItems (items : List Json) :
    items.length < (writeItems items).toList.length := by
  induction items with
  | nil => decide
  | cons item items ih =>
    rw [toList_writeItems_cons]
    simp only [List.length_cons, List.length_append]
    omega

theorem length_lt_writeMembers (members : List (String × Json)) :
    members.length < (writeMembers members).toList.length := by
  induction members with
  | nil => decide
  | cons member members ih =>
    rw [toList_writeMembers_cons]
    simp only [List.length_cons, List.length_append]
    omega

theorem readArray_write {item : Json} {items : List Json} (rest : List Char)
    (hvalue : ∀ n ∈ item :: items, ∀ rest, Closes rest →
      value (n.write.toList ++ rest) = some (n, rest)) :
    readArray value (item.write.toList ++ ((writeItems items).toList ++ rest)) =
      some (array (item :: items), rest) := by
  obtain ⟨c, cs, hc, hblank, hclose⟩ := exists_head_write item
  have hbound : items.length <
      (item.write.toList ++ ((writeItems items).toList ++ rest)).length := by
    have hlt := length_lt_writeItems items
    simp only [List.length_append]
    omega
  have hitems : readItems value _ (item.write.toList ++ ((writeItems items).toList ++ rest)) = _ :=
    readItems_write hvalue hbound
  rw [hc, List.cons_append] at hitems ⊢
  rw [readArray, skipSpace_cons hblank]
  split
  · next heq => exact absurd (List.cons.inj heq).1 hclose
  · exact Option.bind_eq_some_iff.2 ⟨_, hitems, rfl⟩

theorem readObject_write {key : String} {v : Json} {members : List (String × Json)}
    (rest : List Char) (hkey : key ≠ numberKey)
    (hvalue : ∀ member ∈ (key, v) :: members, ∀ rest, Closes rest →
      value (member.2.write.toList ++ rest) = some (member.2, rest)) :
    readObject value ((quote key).toList ++ ':' :: (v.write.toList ++
      ((writeMembers members).toList ++ rest))) = some (object ((key, v) :: members), rest) := by
  have hbound : members.length < ((quote key).toList ++ ':' :: (v.write.toList ++
      ((writeMembers members).toList ++ rest))).length := by
    have hlt := length_lt_writeMembers members
    simp only [List.length_append, List.length_cons]
    omega
  have hmembers : readMembers value _ ((quote key).toList ++ ':' :: (v.write.toList ++
      ((writeMembers members).toList ++ rest))) = _ := readMembers_write hvalue hbound
  have hobject : ofMembers? ((key, v) :: members) = some (object ((key, v) :: members)) :=
    if_neg hkey
  rw [toList_quote, List.cons_append] at hmembers ⊢
  rw [readObject, skipSpace_cons (by decide)]
  exact Option.bind_eq_some_iff.2 ⟨_, hmembers, Option.bind_eq_some_iff.2 ⟨_, hobject, rfl⟩⟩

end Written

theorem readValue_eq_readScalar {c : Char} (hblank : c ∉ [' ', '\t', '\n', '\r'])
    (harray : c ≠ '[') (hobject : c ≠ '\x7b') (depth : Nat) (cs : List Char) :
    readValue depth (c :: cs) = readScalar (c :: cs) := by
  rw [readValue, readNested.eq_def, skipSpace_cons hblank]
  split
  · next heq => exact absurd (List.cons.inj heq).1 harray
  · next heq => exact absurd (List.cons.inj heq).1 hobject
  · rfl

/-- No other document starts like a numeral. -/
theorem readValue_numeral {c : Char} (hc : c = '-' ∨ c.isDigit) (depth : Nat) (cs : List Char) :
    readValue depth (c :: cs) =
      (Numeral.read (c :: cs)).map fun (n, rest) => (number n, rest) := by
  have hne {c' : Char} (hc' : ¬(c' = '-' ∨ c'.isDigit)) : c ≠ c' := fun heq => hc' (heq ▸ hc)
  have hblank : c ∉ [' ', '\t', '\n', '\r'] := by
    simp only [List.mem_cons, List.not_mem_nil, or_false, not_or]
    exact ⟨hne (by decide), hne (by decide), hne (by decide), hne (by decide)⟩
  rw [readValue_eq_readScalar hblank (hne (by decide)) (hne (by decide)), readScalar]
  all_goals
    intro rest heq
    obtain ⟨rfl, -⟩ := List.cons.inj heq
    exact hne (by decide) rfl

theorem readValue_write_scalar {n : Json} (hn : n.isScalar) (depth : Nat) {rest : List Char}
    (hrest : Closes rest) : readValue depth (n.write.toList ++ rest) = some (n, rest) := by
  cases n with
  | null => cases depth <;> rfl
  | bool b => cases b <;> cases depth <;> rfl
  | number n =>
    have hread := n.read_text hrest.ends
    obtain ⟨c, cs, hcs, hc⟩ := n.exists_head_text
    rw [write]
    rw [hcs, List.cons_append] at hread ⊢
    rw [readValue_numeral hc, hread, Option.map_some]
  | string s =>
    rw [write, toList_quote, List.cons_append, List.append_assoc, List.singleton_append,
      readValue_eq_readScalar (by decide) (by decide) (by decide), readScalar, readString_escape]
    simp
  | array items => cases hn
  | object members => cases hn

theorem readValue_array (depth : Nat) (cs : List Char) :
    readValue (depth + 1) ('[' :: cs) = readArray (readValue depth) cs := rfl

theorem readValue_object (depth : Nat) (cs : List Char) :
    readValue (depth + 1) ('\x7b' :: cs) = readObject (readValue depth) cs := rfl

/-- **The text of a readable document is read back**, whatever follows it. -/
theorem readValue_write {depth : Nat} {n : Json} (h : Readable depth n) {rest : List Char}
    (hrest : Closes rest) : readValue depth (n.write.toList ++ rest) = some (n, rest) := by
  -- the parts of `n` are read with other texts behind them, where less depth is left
  induction depth generalizing n rest with
  | zero =>
    cases n with
    | array items => exact h.elim
    | object members => exact h.elim
    | _ => exact readValue_write_scalar rfl 0 hrest
  | succ depth ih =>
    cases n with
    | array items =>
      cases items with
      | nil => rfl
      | cons item items =>
        have hitems := readArray_write rest fun n hn _ => ih (h n hn)
        rw [toList_write_array, List.cons_append, List.append_assoc, readValue_array]
        exact hitems
    | object members =>
      cases members with
      | nil => rfl
      | cons member members =>
        obtain ⟨hname, hvalues⟩ := h
        have hmembers := readObject_write rest (fun heq => hname (congrArg some heq))
          fun member hmember _ => ih (hvalues member hmember)
        rw [toList_write_object]
        simp only [List.cons_append, List.append_assoc, readValue_object]
        exact hmembers
    | _ => exact readValue_write_scalar rfl _ hrest

/-- The text of a readable document is this document. -/
theorem ofText?_write {n : Json} (h : Readable maxDepth n) : ofText? n.write = some n := by
  have hread : readValue maxDepth (n.write.toList ++ []) = _ := readValue_write h nofun
  rw [List.append_nil] at hread
  simp [ofText?, ofChars?, whole?, hread, skipSpace]

theorem readable_of_ofText? {s : String} {n : Json} (h : ofText? s = some n) :
    Readable maxDepth n := by
  unfold ofText? ofChars? whole? at h
  split at h
  · next hread =>
    split at h
    · exact Option.some.inj h ▸ readable_of_readValue hread
    · cases h
  · cases h

end DocFilter.Json
