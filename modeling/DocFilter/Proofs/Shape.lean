import DocFilter.Proofs.Path.RoundTrip
import DocFilter.Proofs.Reading.Documents

/-!
# The shape of accepted filters

What reading guarantees about the parts of a formula, and lowering about the parts of a condition:
every path can be written in the path language of SQL/JSON, every test has as many operands as its
relation takes, and no group is empty. All that is known about the text of a filter rests on this.

## Main definitions

* `Path.Writable`: no unquoted name needs quotes, and no subscript is empty.
* `Formula.WellFormed`, `Condition.WellFormed`: the guarantees.

## Main results

* `Path.writable_of_ofText`: the paths that can be read can be written.
* `Formula.wellFormed_of_reads`: accepted members are well-formed.
* `Formula.filled_lower`: lowering keeps the guarantees.
* `Filter.allWellFormed_conditions`: the conditions of accepted filters are well-formed.
-/

namespace DocFilter

/-! ### Paths -/

/-- Whether a step can be written in the path language of SQL/JSON: a name without quotes does not
need them, and a subscript has an entry. -/
def Step.Writable : Step → Prop
  | field name quoted => quoted = false → needsQuoting name = false
  | wildcard => True
  | array .all => True
  | array (.list extents) => extents ≠ []

/-- Whether all steps of a path can be written. -/
def Path.Writable (p : Path) : Prop :=
  ∀ s ∈ p.steps, s.Writable

/-- A step of the notation can be written. -/
theorem Step.WellFormed.writable {s : Step} (h : s.WellFormed) : s.Writable := by
  cases s with
  | field name quoted => exact h.2.2.2
  | wildcard => trivial
  | array subscript =>
    cases subscript with
    | all => trivial
    | list extents => exact h.1

namespace Path

/-- **Every path that can be read can be written.** -/
theorem writable_of_ofText {text : String} {p : Path} (h : ofText text = .ok p) : p.Writable :=
  fun s hs => ((wellFormed_of_ofText h).1.steps s hs).writable

theorem writable_of_ofSingletonText {text : String} {p : Path} (h : ofSingletonText text = .ok p) :
    p.Writable := by
  obtain ⟨p', hp', hrest⟩ := bind_eq_ok.1 h
  split at hrest
  · obtain rfl := Except.ok.inj hrest
    exact writable_of_ofText hp'
  · cases hrest

end Path

/-! ### Formulas -/

/-- A demand makes a test, and its tests have suitable numbers of operands. -/
def Demand.WellFormed (d : Demand) : Prop :=
  d.tests ≠ [] ∧ ∀ t ∈ d.tests, t.Sized

namespace Formula

mutual

/-- All paths of a formula can be written, all tests have suitable numbers of operands, and no list
of demands, formulas or filters is empty. -/
def WellFormed : Formula → Prop
  | field path demands => path.Writable ∧ demands ≠ [] ∧ ∀ d ∈ demands, d.WellFormed
  | within path body => path.Writable ∧ body ≠ [] ∧ AllWellFormed body
  | junction _ items => items ≠ [] ∧ ItemsWellFormed items
  | negation body => body ≠ [] ∧ AllWellFormed body

/-- As `WellFormed`, for formulas in a row. -/
def AllWellFormed : List Formula → Prop
  | [] => True
  | f :: fs => f.WellFormed ∧ AllWellFormed fs

/-- As `WellFormed`, for the items of a junction, none of which is empty. -/
def ItemsWellFormed : List (List Formula) → Prop
  | [] => True
  | fs :: rest => fs ≠ [] ∧ AllWellFormed fs ∧ ItemsWellFormed rest

end

theorem allWellFormed_iff {fs : List Formula} : AllWellFormed fs ↔ ∀ f ∈ fs, f.WellFormed := by
  induction fs with
  | nil => simp [AllWellFormed]
  | cons f fs ih => rw [AllWellFormed, ih, List.forall_mem_cons]

end Formula

section Flatten

variable {α β : Type} {R : α → List β → Prop} {as : List α} {bss : List (List β)}

theorem flatten_ne_nil_of_forall₂ (h : List.Forall₂ R as bss) (hne : as ≠ [])
    (hR : ∀ a bs, R a bs → bs ≠ []) : bss.flatten ≠ [] := by
  cases h with
  | nil => exact absurd rfl hne
  | cons hab _ =>
    rw [List.flatten_cons]
    exact List.append_ne_nil_of_left_ne_nil (hR _ _ hab) _

theorem forall_mem_flatten_of_forall₂ {P : β → Prop} (h : List.Forall₂ R as bss)
    (hR : ∀ a bs, R a bs → ∀ b ∈ bs, P b) : ∀ b ∈ bss.flatten, P b := by
  induction h with
  | nil => exact nofun
  | cons hab _ ih =>
    intro b hb
    rcases List.mem_append.1 hb with hb | hb
    · exact hR _ _ hab b hb
    · exact ih b hb

end Flatten

theorem Test.wellFormed_of_readsUnder {m : Modifier} {member : String × Json} {tests : List Test}
    (h : Test.ReadsUnder m member tests) : tests ≠ [] ∧ ∀ t ∈ tests, t.Sized := by
  obtain ⟨op, -, htests⟩ := h
  exact (ofOperator_eq_ok htests).2

theorem Test.wellFormed_of_reads {member : String × Json} {tests : List Test}
    (h : Test.Reads member tests) : tests ≠ [] ∧ ∀ t ∈ tests, t.Sized := by
  cases h with
  | operator _ htests => exact (ofOperator_eq_ok htests).2
  | modifier _ hne htests =>
    exact ⟨flatten_ne_nil_of_forall₂ htests hne fun _ _ h => (wellFormed_of_readsUnder h).1,
      forall_mem_flatten_of_forall₂ htests fun _ _ h => (wellFormed_of_readsUnder h).2⟩
  | scalar _ _ htests => exact (ofOperator_eq_ok htests).2

theorem Demand.wellFormed_map_test {tests : List Test}
    (h : tests ≠ [] ∧ ∀ t ∈ tests, t.Sized) :
    tests.map Demand.test ≠ [] ∧ ∀ d ∈ tests.map Demand.test, d.WellFormed := by
  refine ⟨by simpa using h.1, ?_⟩
  intro d hd
  obtain ⟨t, ht, rfl⟩ := List.mem_map.1 hd
  exact ⟨List.cons_ne_nil _ _, by simpa [Demand.tests] using h.2 t ht⟩

theorem Demand.wellFormed_of_reads {member : String × Json} {demands : List Demand}
    (h : Demand.Reads member demands) : demands ≠ [] ∧ ∀ d ∈ demands, d.WellFormed := by
  cases h with
  | negation _ hne htests =>
    refine ⟨List.cons_ne_nil _ _, ?_⟩
    intro d hd
    obtain rfl := List.mem_singleton.1 hd
    exact ⟨flatten_ne_nil_of_forall₂ htests hne fun _ _ h => (Test.wellFormed_of_reads h).1,
      forall_mem_flatten_of_forall₂ htests fun _ _ h => (Test.wellFormed_of_reads h).2⟩
  | tests htests => exact wellFormed_map_test (Test.wellFormed_of_reads htests)

namespace Formula

mutual

/-- **Accepted members are well-formed.** -/
theorem wellFormed_of_reads {member : String × Json} {f : Formula} :
    Reads member f → f.WellFormed
  | .junction _ hne hitems => by
      refine ⟨?_, itemsWellFormed_of_reads hitems⟩
      rintro rfl
      cases hitems
      exact hne rfl
  | .negation _ hne hmembers => ⟨hmembers.ne_nil hne, allWellFormed_of_reads hmembers⟩
  | .within hkey hne _ hmembers =>
      ⟨Path.writable_of_ofText (Role.field_of_ofKey hkey).2, hmembers.ne_nil hne,
        allWellFormed_of_reads hmembers⟩
  | .operators hkey hne _ hmembers =>
      ⟨Path.writable_of_ofText (Role.field_of_ofKey hkey).2,
        flatten_ne_nil_of_forall₂ hmembers hne fun _ _ h => (Demand.wellFormed_of_reads h).1,
        forall_mem_flatten_of_forall₂ hmembers fun _ _ h => (Demand.wellFormed_of_reads h).2⟩
  | .all hkey htests =>
      ⟨Path.writable_of_ofText (Role.field_of_ofKey hkey).2,
        Demand.wellFormed_map_test (Test.ofOperator_eq_ok htests).2⟩
  | .scalar hkey _ htests =>
      ⟨Path.writable_of_ofText (Role.field_of_ofKey hkey).2,
        Demand.wellFormed_map_test (Test.ofOperator_eq_ok htests).2⟩

theorem allWellFormed_of_reads {members : List (String × Json)} {fs : List Formula} :
    ReadsAll members fs → AllWellFormed fs
  | .nil => trivial
  | .cons hmember hmembers => ⟨wellFormed_of_reads hmember, allWellFormed_of_reads hmembers⟩

theorem itemsWellFormed_of_reads {items : List Json} {bodies : List (List Formula)} :
    ReadsItems items bodies → ItemsWellFormed bodies
  | .nil => trivial
  | .cons hne hmembers hitems =>
      ⟨hmembers.ne_nil hne, allWellFormed_of_reads hmembers, itemsWellFormed_of_reads hitems⟩

end

end Formula

/-! ### Conditions -/

namespace Condition

mutual

/-- All paths of a condition can be written, all tests have suitable numbers of operands, and no
group is empty. -/
def WellFormed : Condition → Prop
  | leaf path test => path.Writable ∧ test.Sized
  | group _ _ children => children ≠ [] ∧ AllWellFormed children
  | within path children => path.Writable ∧ children ≠ [] ∧ AllWellFormed children

/-- As `WellFormed`, for all conditions of a group. -/
def AllWellFormed : List Condition → Prop
  | [] => True
  | c :: cs => c.WellFormed ∧ AllWellFormed cs

end

theorem allWellFormed_iff :
    {cs : List Condition} → (AllWellFormed cs ↔ ∀ c ∈ cs, c.WellFormed)
  | [] => by simp [AllWellFormed]
  | c :: cs => by rw [AllWellFormed, allWellFormed_iff, List.forall_mem_cons]

/-- Some well-formed conditions, and not none: what may stand in a group. -/
def Filled (cs : List Condition) : Prop :=
  cs ≠ [] ∧ AllWellFormed cs

theorem filled_singleton {c : Condition} : Filled [c] ↔ c.WellFormed := by
  simp [Filled, AllWellFormed]

theorem Filled.append {cs cs' : List Condition} (h : Filled cs) (h' : AllWellFormed cs') :
    Filled (cs ++ cs') := by
  refine ⟨List.append_ne_nil_of_left_ne_nil h.1 _, ?_⟩
  rw [allWellFormed_iff] at h' ⊢
  exact List.forall_mem_append.2 ⟨allWellFormed_iff.1 h.2, h'⟩

theorem filled_flatMap {β : Type} {f : β → List Condition} {bs : List β} (hne : bs ≠ [])
    (h : ∀ b ∈ bs, Filled (f b)) : Filled (bs.flatMap f) := by
  obtain ⟨b, bs, rfl⟩ := List.exists_cons_of_ne_nil hne
  rw [List.flatMap_cons]
  refine (h b List.mem_cons_self).append ?_
  rw [allWellFormed_iff]
  intro c hc
  obtain ⟨b', hb', hc⟩ := List.mem_flatMap.1 hc
  exact allWellFormed_iff.1 (h b' (List.mem_cons_of_mem _ hb')).2 c hc

end Condition

open Condition

theorem Test.Sized.negate {t : Test} (h : t.Sized) : t.negate.Sized := h

theorem Demand.filled_lower {path : Path} {d : Demand} (hpath : path.Writable) (h : d.WellFormed)
    (g : Group) : Filled (d.lower path g) := by
  have hleaf {t : Test} (ht : t ∈ d.tests) : (leaf path t).WellFormed := ⟨hpath, h.2 t ht⟩
  unfold Demand.lower
  split
  · exact filled_singleton.2 (hleaf (List.mem_singleton_self _))
  · exact absurd rfl h.1
  · exact filled_singleton.2 ⟨hpath, (h.2 _ (List.mem_singleton_self _)).negate⟩
  · next tests _ _ =>
    have hleaves : Filled (tests.map fun t => leaf path t.negate) := by
      refine ⟨by simpa [Demand.tests] using h.1, allWellFormed_iff.2 ?_⟩
      intro c hc
      obtain ⟨t, ht, rfl⟩ := List.mem_map.1 hc
      exact ⟨hpath, (h.2 t ht).negate⟩
    dsimp only
    split
    · exact hleaves
    · exact filled_singleton.2 hleaves

theorem Demand.filled_lowerAll {path : Path} {demands : List Demand} (hpath : path.Writable)
    (hne : demands ≠ []) (h : ∀ d ∈ demands, d.WellFormed) (g : Group) :
    Filled (Demand.lowerAll path g demands) := by
  have hflat (g : Group) : Filled (demands.flatMap (Demand.lower path g)) :=
    filled_flatMap hne fun d hd => filled_lower hpath (h d hd) g
  unfold Demand.lowerAll
  split
  · exact filled_singleton.2 (hflat .root)
  · exact hflat g

namespace Formula

mutual

/-- **Lowering a well-formed formula gives well-formed conditions, and not none.** -/
theorem filled_lower (g : Group) : (f : Formula) → f.WellFormed → Filled (f.lower g)
  | field path demands, h => by
      rw [lower]
      exact Demand.filled_lowerAll h.1 h.2.1 h.2.2 g
  | within path body, h => by
      rw [lower]
      exact filled_singleton.2 ⟨h.1, filled_lowerAll .root body h.2.1 h.2.2⟩
  | negation body, h => by
      rw [lower]
      exact filled_singleton.2 (filled_lowerAll _ body h.1 h.2)
  | junction c items, h => by
      rw [lower]
      split
      · exact filled_lowerItems g items h.1 h.2
      · exact filled_singleton.2 (filled_lowerItems _ items h.1 h.2)

theorem filled_lowerAll (g : Group) :
    (fs : List Formula) → fs ≠ [] → AllWellFormed fs → Filled (lowerAll g fs)
  | [], hne, _ => absurd rfl hne
  | [f], _, h => by
      rw [lowerAll, lowerAll, List.append_nil]
      exact filled_lower g f h.1
  | f :: f' :: fs, _, h => by
      rw [lowerAll]
      have hfs := filled_lowerAll g (f' :: fs) (List.cons_ne_nil _ _) h.2
      exact (filled_lower g f h.1).append hfs.2

theorem filled_lowerItems (g : Group) :
    (items : List (List Formula)) → items ≠ [] → ItemsWellFormed items →
      Filled (lowerItems g items)
  | [], hne, _ => absurd rfl hne
  | fs :: items, _, h => by
      rw [lowerItems]
      have hbody : Filled (if g.absorbs .and || fs.length = 1 then lowerAll g fs
          else [.group .and false (lowerAll .root fs)]) := by
        split
        · exact filled_lowerAll g fs h.1 h.2.1
        · exact filled_singleton.2 (filled_lowerAll .root fs h.1 h.2.1)
      cases items with
      | nil => simpa [lowerItems] using hbody
      | cons item items =>
        exact hbody.append (filled_lowerItems g (item :: items) (List.cons_ne_nil _ _) h.2.2).2

end

theorem allWellFormed_lowerAll {g : Group} {fs : List Formula} (h : AllWellFormed fs) :
    Condition.AllWellFormed (lowerAll g fs) := by
  cases fs with
  | nil => exact trivial
  | cons f fs => exact (filled_lowerAll g (f :: fs) (List.cons_ne_nil _ _) h).2

end Formula

/-! ### Filters -/

/-- **The conditions of an accepted filter are well-formed.** -/
theorem Filter.allWellFormed_conditions {d : Json} {f : Filter} (h : Filter.ofJson d = .ok f) :
    Condition.AllWellFormed f.conditions := by
  obtain ⟨members, clauses, -, rfl, hreads, -⟩ := Filter.reads_of_ofJson h
  refine Formula.allWellFormed_lowerAll (Formula.allWellFormed_iff.2 ?_)
  intro φ hφ
  obtain ⟨clause, hclause, hsome⟩ := List.mem_filterMap.1 hφ
  cases clause with
  | formula φ' =>
    obtain rfl := Option.some.inj hsome
    obtain ⟨member, hmember⟩ := Clause.exists_reads hreads hclause rfl
    cases hmember with
    | formula hformula => exact Formula.wellFormed_of_reads hformula
  | _ => cases hsome

end DocFilter
