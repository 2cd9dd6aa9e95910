import DocFilter.Filter.Condition
import Mathlib.Tactic.SplitIfs

/-!
# Flattened conditions

Lowering opens a group only where its conditions cannot be placed in the group around them. So no
conjunction stands in a conjunction, and no disjunction in a disjunction, except for groups that are
negated and for what is said of single values of a field.

## Main definitions

* `Group.Holds`: the groups that may stand directly in another one.
* `Condition.Flattened`: no group of a condition could be placed in the group around it.

## Main results

* `Formula.flattened_lower`: lowering gives flattened conditions.
-/

namespace DocFilter

/-- Whether a group may stand directly in the group `g`. A plain conjunction may only stand in a
disjunction, a plain disjunction in anything but a plain disjunction, and a negated group
anywhere. -/
def Group.Holds (g inner : Group) : Prop :=
  (inner = ⟨.and, false⟩ → g.junction = .or) ∧ (inner = ⟨.or, false⟩ → g ≠ ⟨.or, false⟩)

namespace Condition

mutual

/-- No group of a condition could be placed in the group around it, and that of the condition
itself not in `g`. -/
def Flattened (g : Group) : Condition → Prop
  | leaf _ _ => True
  | group junction negated children =>
    g.Holds ⟨junction, negated⟩ ∧ AllFlattened ⟨junction, negated⟩ children
  | within _ children => AllFlattened .root children

/-- As `Flattened`, for all conditions of a group `g`. -/
def AllFlattened (g : Group) : List Condition → Prop
  | [] => True
  | c :: cs => c.Flattened g ∧ AllFlattened g cs

end

variable {g : Group}

theorem allFlattened_iff {cs : List Condition} :
    AllFlattened g cs ↔ ∀ c ∈ cs, c.Flattened g := by
  induction cs with
  | nil => simp [AllFlattened]
  | cons c cs ih => rw [AllFlattened, ih, List.forall_mem_cons]

theorem allFlattened_singleton {c : Condition} : AllFlattened g [c] ↔ c.Flattened g := by
  simp [AllFlattened]

theorem AllFlattened.append {cs cs' : List Condition} (h : AllFlattened g cs)
    (h' : AllFlattened g cs') : AllFlattened g (cs ++ cs') := by
  rw [allFlattened_iff] at h h' ⊢
  exact List.forall_mem_append.2 ⟨h, h'⟩

theorem allFlattened_flatMap {β : Type} {f : β → List Condition} {bs : List β}
    (h : ∀ b ∈ bs, AllFlattened g (f b)) : AllFlattened g (bs.flatMap f) := by
  rw [allFlattened_iff]
  intro c hc
  obtain ⟨b, hb, hcb⟩ := List.mem_flatMap.1 hc
  exact allFlattened_iff.1 (h b hb) c hcb

end Condition

namespace Group

/-- What a group does not take in may stand in it as a group. -/
theorem holds_ofConnective {g : Group} {c : Connective} (h : g.absorbs c = false) :
    g.Holds (ofConnective c) := by
  obtain ⟨junction, negated⟩ := g
  cases c <;> cases junction <;> cases negated <;> simp_all [Holds, ofConnective, absorbs]

theorem holds_of_negated (g : Group) (junction : Junction) : g.Holds ⟨junction, true⟩ := by
  simp [Holds]

end Group

open Condition

namespace Demand

variable {path : Path}

theorem allFlattened_map_leaf (g : Group) (tests : List Test) :
    AllFlattened g (tests.map fun t => leaf path t.negate) := by
  rw [allFlattened_iff, List.forall_mem_map]
  exact fun t _ => by rw [Flattened]; trivial

theorem flattened_lower (g : Group) (d : Demand) : AllFlattened g (d.lower path g) := by
  unfold lower
  split
  · simp [AllFlattened, Flattened]
  · simp [AllFlattened]
  · simp [AllFlattened, Flattened]
  · dsimp only
    split_ifs with hor
    · exact allFlattened_map_leaf g _
    · rw [allFlattened_singleton, Flattened]
      exact ⟨Group.holds_ofConnective (c := .or) (by simpa using hor), allFlattened_map_leaf _ _⟩

theorem flattened_lowerAll (g : Group) (demands : List Demand) :
    AllFlattened g (lowerAll path g demands) := by
  unfold lowerAll
  split_ifs with hand
  · have habsorbs : g.absorbs .and = false := by simpa using (Bool.and_eq_true_iff.1 hand).2
    rw [allFlattened_singleton, Flattened]
    exact ⟨Group.holds_ofConnective (c := .and) habsorbs,
      allFlattened_flatMap fun d _ => flattened_lower .root d⟩
  · exact allFlattened_flatMap fun d _ => flattened_lower g d

end Demand

namespace Formula

mutual

/-- **Lowering gives flattened conditions.** -/
theorem flattened_lower (g : Group) : (f : Formula) → AllFlattened g (f.lower g)
  | field path demands => by
      rw [lower]
      exact Demand.flattened_lowerAll g demands
  | within path body => by
      rw [lower, allFlattened_singleton, Flattened]
      exact flattened_lowerAll .root body
  | negation body => by
      rw [lower, allFlattened_singleton, Flattened]
      exact ⟨g.holds_of_negated .and, flattened_lowerAll _ body⟩
  | junction c items => by
      rw [lower]
      split_ifs with habsorbs
      · exact flattened_lowerItems g items
      · rw [allFlattened_singleton, Group.node, Flattened]
        exact ⟨Group.holds_ofConnective (by simpa using habsorbs), flattened_lowerItems _ items⟩

theorem flattened_lowerAll (g : Group) :
    (fs : List Formula) → AllFlattened g (lowerAll g fs)
  | [] => by
      rw [lowerAll, AllFlattened]
      trivial
  | f :: fs => by
      rw [lowerAll]
      exact (flattened_lower g f).append (flattened_lowerAll g fs)

theorem flattened_lowerItems (g : Group) :
    (items : List (List Formula)) → AllFlattened g (lowerItems g items)
  | [] => by
      rw [lowerItems, AllFlattened]
      trivial
  | fs :: items => by
      rw [lowerItems]
      refine AllFlattened.append ?_ (flattened_lowerItems g items)
      split_ifs with hjoin
      · exact flattened_lowerAll g fs
      · have habsorbs : g.absorbs .and = false := by
          simp only [Bool.or_eq_true, not_or, Bool.not_eq_true] at hjoin
          exact hjoin.1
        rw [allFlattened_singleton, Flattened]
        exact ⟨Group.holds_ofConnective (c := .and) habsorbs, flattened_lowerAll .root fs⟩

end

end Formula

end DocFilter
