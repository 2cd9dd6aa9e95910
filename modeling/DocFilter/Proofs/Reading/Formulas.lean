import DocFilter.Proofs.Reading.Tests

/-!
# What reading accepts: formulas

The rules for the members of a filter, of the objects under connectives and of the objects that
describe the elements of a field.

## Main definitions

* `Formula.Reads`: the accepted members and their formulas.

## Main results

* `Formula.reads_of_read`: an accepted member follows the rules of `Formula.Reads`.
-/

namespace DocFilter

/-! ### Members of a filter -/

/-- The keyword of a connective. -/
def Connective.keyword : Connective → Keyword
  | and => .and
  | or => .or
  | nor => .nor

theorem Role.connective_of_ofKey {key : String} {c : Connective}
    (h : Role.ofKey key = .ok (.connective c)) : Keyword.ofKey? key = some c.keyword := by
  unfold Role.ofKey at h
  split at h <;> try cases h
  · assumption
  · assumption
  · assumption
  · split at h
    · cases h
    · obtain ⟨p, -, hrole⟩ := map_eq_ok.1 h
      cases hrole

theorem Role.negation_of_ofKey {key : String} (h : Role.ofKey key = .ok .negation) :
    Keyword.ofKey? key = some .not := by
  unfold Role.ofKey at h
  split at h <;> try cases h
  · assumption
  · split at h
    · cases h
    · obtain ⟨p, -, hrole⟩ := map_eq_ok.1 h
      cases hrole

theorem Role.field_of_ofKey {key : String} {path : Path} (h : Role.ofKey key = .ok (.field path)) :
    Keyword.ofKey? key = none ∧ Path.ofText key = .ok path := by
  unfold Role.ofKey at h
  split at h <;> try cases h
  split at h
  · cases h
  · obtain ⟨p, hp, hpath⟩ := map_eq_ok.1 h
    obtain rfl := Role.field.inj hpath
    exact ⟨by assumption, hp⟩

theorem isDownscope_eq_ok {field : String} {members : List (String × Json)} {down : Bool}
    (h : isDownscope field members = .ok down) :
    (members.all fun (key, _) => isFieldKey key) = down := by
  unfold isDownscope at h
  split at h
  · cases h
  · split_ifs at h with hall hany
    · rw [hall]
      exact Except.ok.inj h
    · rw [← Except.ok.inj h]
      exact Bool.eq_false_iff.2 hall

namespace Formula

mutual

/-- An accepted member of a filter with its formula. -/
inductive Reads : String × Json → Formula → Prop
  | junction {key : String} {items : List Json} {bodies : List (List Formula)} {c : Connective}
      (hkey : Role.ofKey key = .ok (.connective c)) (hne : items ≠ [])
      (hitems : ReadsItems items bodies) : Reads (key, .array items) (.junction c bodies)
  | negation {key : String} {members : List (String × Json)} {body : List Formula}
      (hkey : Role.ofKey key = .ok .negation) (hne : members ≠ [])
      (hmembers : ReadsAll members body) : Reads (key, .object members) (.negation body)
  | within {key : String} {members : List (String × Json)} {body : List Formula} {path : Path}
      (hkey : Role.ofKey key = .ok (.field path)) (hne : members ≠ [])
      (hdown : isDownscope key members = .ok true) (hmembers : ReadsAll members body) :
      Reads (key, .object members) (.within path body)
  | operators {key : String} {members : List (String × Json)} {demands : List (List Demand)}
      {path : Path} (hkey : Role.ofKey key = .ok (.field path)) (hne : members ≠ [])
      (hdown : isDownscope key members = .ok false)
      (hmembers : List.Forall₂ Demand.Reads members demands) :
      Reads (key, .object members) (.field path demands.flatten)
  | all {key : String} {items : List Json} {tests : List Test} {path : Path}
      (hkey : Role.ofKey key = .ok (.field path))
      (htests : Test.ofOperator none .all key (.array items) = .ok tests) :
      Reads (key, .array items) (.field path (tests.map .test))
  | scalar {key : String} {v : Json} {tests : List Test} {path : Path}
      (hkey : Role.ofKey key = .ok (.field path)) (hv : v.isScalar)
      (htests : Test.ofOperator none .eq key v = .ok tests) :
      Reads (key, v) (.field path (tests.map .test))

/-- The accepted members of a filter with their formulas. -/
inductive ReadsAll : List (String × Json) → List Formula → Prop
  | nil : ReadsAll [] []
  | cons {member : String × Json} {members : List (String × Json)} {f : Formula}
      {fs : List Formula} (hmember : Reads member f) (hmembers : ReadsAll members fs) :
      ReadsAll (member :: members) (f :: fs)

/-- The accepted filters under a connective with their formulas. -/
inductive ReadsItems : List Json → List (List Formula) → Prop
  | nil : ReadsItems [] []
  | cons {members : List (String × Json)} {items : List Json} {body : List Formula}
      {bodies : List (List Formula)} (hne : members ≠ []) (hmembers : ReadsAll members body)
      (hitems : ReadsItems items bodies) : ReadsItems (.object members :: items) (body :: bodies)

end

theorem ReadsAll.ne_nil {members : List (String × Json)} {fs : List Formula}
    (h : ReadsAll members fs) (hne : members ≠ []) : fs ≠ [] := by
  rintro rfl
  cases h
  exact hne rfl

/-- A field with a scalar has to equal it, and no other member is a scalar. -/
theorem reads_of_readScalar {key : String} {v : Json} {f : Formula} (hv : v.isScalar)
    (h : (do
      match ← Role.ofKey key with
      | .connective _ => throw (v.mismatch key "array")
      | .negation => throw (v.mismatch key "object")
      | .field path => return field path ((← Test.ofOperator none .eq key v).map .test)) = .ok f) :
    Reads (key, v) f := by
  obtain ⟨role, hkey, hrest⟩ := bind_eq_ok.1 h
  cases role with
  | connective c => cases hrest
  | negation => cases hrest
  | field path =>
    obtain ⟨tests, htests, hrest⟩ := bind_eq_ok.1 hrest
    obtain rfl := Except.ok.inj hrest
    exact .scalar hkey hv htests

mutual

/-- **Accepted members follow the rules of `Formula.Reads`.** -/
theorem reads_of_read {scope : Scope} (key : String) :
    (v : Json) → {f : Formula} → read scope key v = .ok f → Reads (key, v) f
  | .array items, f, h => by
      rw [read] at h
      obtain ⟨role, hkey, hrest⟩ := bind_eq_ok.1 h
      cases role with
      | connective c =>
        dsimp only at hrest
        split at hrest
        · cases hrest
        · next hne =>
          obtain ⟨bodies, hbodies, hrest⟩ := bind_eq_ok.1 hrest
          obtain rfl := Except.ok.inj hrest
          exact .junction hkey (by simpa using hne) (readsItems_of_readItems items hbodies)
      | negation => cases hrest
      | field path =>
        obtain ⟨tests, htests, hrest⟩ := bind_eq_ok.1 hrest
        obtain rfl := Except.ok.inj hrest
        exact .all hkey htests
  | .object members, f, h => by
      rw [read] at h
      obtain ⟨role, hkey, hrest⟩ := bind_eq_ok.1 h
      cases role with
      | connective c => cases hrest
      | negation =>
        dsimp only at hrest
        split at hrest
        · cases hrest
        · next hne =>
          obtain ⟨body, hbody, hrest⟩ := bind_eq_ok.1 hrest
          obtain rfl := Except.ok.inj hrest
          exact .negation hkey (by simpa using hne) (readsAll_of_readMembers members hbody)
      | field path =>
        dsimp only at hrest
        split at hrest
        · cases hrest
        · next hne =>
          obtain ⟨down, hdown, hrest⟩ := bind_eq_ok.1 hrest
          cases down with
          | true =>
            obtain ⟨body, hbody, hrest⟩ := bind_eq_ok.1 hrest
            obtain rfl := Except.ok.inj hrest
            exact .within hkey (by simpa using hne) hdown (readsAll_of_readMembers members hbody)
          | false =>
            obtain ⟨demands, hdemands, hrest⟩ := bind_eq_ok.1 hrest
            obtain rfl := Except.ok.inj hrest
            obtain ⟨parts, hparts, rfl⟩ := Demand.reads_of_readAll hdemands
            exact .operators hkey (by simpa using hne) hdown hparts
  | .null, _, h => reads_of_readScalar rfl (by rwa [read] at h <;> nofun)
  | .bool _, _, h => reads_of_readScalar rfl (by rwa [read] at h <;> nofun)
  | .number _, _, h => reads_of_readScalar rfl (by rwa [read] at h <;> nofun)
  | .string _, _, h => reads_of_readScalar rfl (by rwa [read] at h <;> nofun)

theorem readsAll_of_readMembers :
    (members : List (String × Json)) → {fs : List Formula} → readMembers members = .ok fs →
      ReadsAll members fs
  | [], fs, h => by
      obtain rfl := Except.ok.inj h
      exact .nil
  | (key, v) :: members, fs, h => by
      rw [readMembers] at h
      obtain ⟨f, hf, hrest⟩ := bind_eq_ok.1 h
      obtain ⟨fs', hfs, hrest⟩ := bind_eq_ok.1 hrest
      obtain rfl := Except.ok.inj hrest
      exact .cons (reads_of_read key v hf) (readsAll_of_readMembers members hfs)

theorem readsItems_of_readItems {key : String} :
    (items : List Json) → {bodies : List (List Formula)} → readItems key items = .ok bodies →
      ReadsItems items bodies
  | [], bodies, h => by
      obtain rfl := Except.ok.inj h
      exact .nil
  | .object members :: items, bodies, h => by
      rw [readItems] at h
      dsimp only at h
      split at h
      · cases h
      · next hne =>
        obtain ⟨body, hbody, hrest⟩ := bind_eq_ok.1 h
        obtain ⟨bodies', hbodies, hrest⟩ := bind_eq_ok.1 hrest
        obtain rfl := Except.ok.inj hrest
        exact .cons (by simpa using hne) (readsAll_of_readMembers members hbody)
          (readsItems_of_readItems items hbodies)
  | .null :: _, _, h => by cases h
  | .bool _ :: _, _, h => by cases h
  | .number _ :: _, _, h => by cases h
  | .string _ :: _, _, h => by cases h
  | .array _ :: _, _, h => by cases h

end

end Formula

end DocFilter
