import DocFilter.Proofs.Comparisons
import DocFilter.Proofs.Json.Literals
import DocFilter.Proofs.Json.RoundTrip

/-!
# Tests for presence

The operand of `$exists` says whether a value has to be present or absent. A number asks for
presence if it is rounded to a finite number other than zero. So a number asks for absence not only
if it is zero, but also if it is too small or too large for double precision.

## Main results

* `Filter.ofJson_field`: the conditions of a document with one field.
* `Operand.isTruthy_number_iff`: the numbers that ask for presence.
* `Filter.ofJson_exists_literal`: the conditions of `$exists` with a literal, and under `$not`.
-/

namespace DocFilter

/-! ### Documents with one field -/

/-- A field whose object has no spatial or text operator is a condition by its demands. -/
theorem Filter.ofJson_field {key : String} {path : Path} {members : List (String × Json)}
    {demands : List Demand} (hkey : Keyword.ofKey? key = none) (hdollar : isDollarKey key = false)
    (hpath : Path.ofText key = .ok path) (hne : members ≠ [])
    (hdown : isDownscope key members = .ok false)
    (hside : Clause.readSide? key (.object members) = none)
    (h : Demand.readAll .top key members = .ok demands) :
    ∃ f, ofJson (.object [(key, .object members)]) = .ok f ∧
      f.conditions = Demand.lowerAll path .root demands := by
  have hrole : Role.ofKey key = .ok (.field path) := by
    simp [Role.ofKey, hkey, hdollar, hpath, Except.map]
  have hclause : Clause.read [] key (.object members) = .ok (.formula (.field path demands)) := by
    simp [Clause.read, hkey, hdollar, hside, Formula.read_field_object hrole hne hdown h,
      Except.map]
  have hdocument : Clause.readDocument false [] [(key, .object members)] =
      .ok [.formula (.field path demands)] := by
    refine bind_eq_ok.2 ⟨[.formula (.field path demands)], ?_, rfl⟩
    simp [Clause.readOuter, hkey, hclause, Except.map]
  have hquery : countKey "$query" [(key, Json.object members)] = 0 := by
    refine countKey_eq_zero_iff.2 fun member hmember heq => ?_
    obtain rfl := List.mem_singleton.1 hmember
    rw [show key = "$query" from heq] at hkey
    revert hkey
    decide
  exact ⟨_, ofJson_of_readDocument hquery hdocument, List.append_nil _⟩

/-! ### The operand -/

/-- **The numbers that ask for presence**: those which double precision has, up to rounding, as a
finite number other than zero. -/
theorem Operand.isTruthy_number_iff (n : Numeral) :
    (Operand.plain (.number n)).isTruthy ↔ Binary64.Covers n.value :=
  n.isNonzero_toBinary64_iff

/-- A number outside of double precision asks for absence, though it is not zero. -/
theorem Operand.isTruthy_number_of_value_ne_zero :
    (∃ n, Json.ofText? "1e400" = some (.number n) ∧ n.value ≠ 0 ∧
      (Operand.plain (.number n)).isTruthy = false) ∧
    ∃ n, Json.ofText? "1e-400" = some (.number n) ∧ n.value ≠ 0 ∧
      (Operand.plain (.number n)).isTruthy = false := by
  have hread {s : String} {n : Numeral} (h : Numeral.ofText? s = some n) :
      Json.ofText? s = some (.number n) :=
    Json.ofText?_of_spells (Numeral.ofText?_eq_some_iff.1 h)
  refine
    ⟨⟨⟨false, 1, [], some ⟨false, 4, [0, 0]⟩⟩, hread (by decide +kernel), ?_, by decide +kernel⟩,
      ⟨false, 1, [], some ⟨true, 4, [0, 0]⟩⟩, hread (by decide +kernel), ?_, by decide +kernel⟩
  · simp [Numeral.value, Digit.value, zpow_ne_zero]
  · simp [Numeral.value, Digit.value, zpow_ne_zero]

/-! ### Conditions -/

namespace Keyword

theorem ofKey?_exists : ofKey? "$exists" = some (.operator .present) := by
  decide

theorem ofKey?_not : ofKey? "$not" = some .not := by
  decide

end Keyword

theorem Test.read_exists (place : Place) (n : Numeral) :
    Test.read place "$exists" (.number n) =
      .ok [⟨none, .present, !(Operand.plain (.number n)).isTruthy, []⟩] := by
  simp only [Test.read, Keyword.ofKey?_exists]
  rfl

namespace Filter

section Exists

variable {key : String} {path : Path} (hkey : Keyword.ofKey? key = none)
  (hdollar : isDollarKey key = false) (hpath : Path.ofText key = .ok path) (n : Numeral)

include hkey hdollar hpath

theorem ofJson_exists_number :
    ∃ f, ofJson (.object [(key, .object [("$exists", .number n)])]) = .ok f ∧
      f.conditions =
        [.leaf path ⟨none, .present, !(Operand.plain (.number n)).isTruthy, []⟩] := by
  have hdown : isDownscope key [("$exists", .number n)] = .ok false := by
    simp [isDownscope, isUnknownKey, isFieldKey, Keyword.ofKey?_exists, Keyword.isConnective]
  have hside : Clause.readSide? key (.object [("$exists", .number n)]) = none := by
    simp only [Clause.readSide?, Keyword.ofKey?_exists]
  have hdemands : Demand.readAll .top key [("$exists", .number n)] =
      .ok [.test ⟨none, .present, !(Operand.plain (.number n)).isTruthy, []⟩] := by
    simp [Demand.readAll, Demand.read, Keyword.ofKey?_exists, Test.read_exists, Except.map]
  exact ofJson_field hkey hdollar hpath (List.cons_ne_nil _ _) hdown hside hdemands

/-- Under `$not` a number asks for the opposite. -/
theorem ofJson_not_exists_number :
    ∃ f, ofJson (.object [(key, .object [("$not", .object [("$exists", .number n)])])]) = .ok f ∧
      f.conditions =
        [.leaf path ⟨none, .present, (Operand.plain (.number n)).isTruthy, []⟩] := by
  have hdown : isDownscope key [("$not", .object [("$exists", .number n)])] = .ok false := by
    simp [isDownscope, isUnknownKey, isFieldKey, Keyword.ofKey?_not, Keyword.isConnective]
  have hside :
      Clause.readSide? key (.object [("$not", .object [("$exists", .number n)])]) = none := by
    simp only [Clause.readSide?, Keyword.ofKey?_not]
  have hread : Demand.read .top key "$not" (.object [("$exists", .number n)]) =
      .ok [.negation [⟨none, .present, !(Operand.plain (.number n)).isTruthy, []⟩]] := by
    simp only [Demand.read, Keyword.ofKey?_not]
    have htest := Test.read_exists ⟨.top, key, true⟩ n
    exact bind_eq_ok.2 ⟨_, rfl, bind_eq_ok.2 ⟨_, mapM_eq_ok.2 (.cons htest .nil), rfl⟩⟩
  have hdemands : Demand.readAll .top key [("$not", .object [("$exists", .number n)])] =
      .ok [.negation [⟨none, .present, !(Operand.plain (.number n)).isTruthy, []⟩]] :=
    map_eq_ok.2 ⟨[_], mapM_eq_ok.2 (.cons hread .nil), rfl⟩
  obtain ⟨f, hf, hconditions⟩ :=
    ofJson_field hkey hdollar hpath (List.cons_ne_nil _ _) hdown hside hdemands
  refine ⟨f, hf, hconditions.trans ?_⟩
  simp [Demand.lowerAll, Demand.lower, Test.negate]

end Exists

/-- **`$exists` with a literal of any length.** The literal is accepted. The condition of the field
is negated exactly if the number of the literal is zero, or lost when it is rounded to double
precision; under `$not` it is negated exactly if not. -/
theorem ofJson_exists_literal {s : String} {n : Numeral} (hs : n.Spells s.toList) {key : String}
    {path : Path} (hkey : Keyword.ofKey? key = none) (hdollar : isDollarKey key = false)
    (hpath : Path.ofText key = .ok path) :
    Json.ofBytes? s.toUTF8 = some (.number n) ∧
    ((Operand.plain (.number n)).isTruthy ↔ Binary64.Covers n.value) ∧
    ∃ negated f g, (negated = true ↔ ¬Binary64.Covers n.value) ∧
      ofJson (.object [(key, .object [("$exists", .number n)])]) = .ok f ∧
      f.conditions = [.leaf path ⟨none, .present, negated, []⟩] ∧
      ofJson (.object [(key, .object [("$not", .object [("$exists", .number n)])])]) = .ok g ∧
      g.conditions = [.leaf path ⟨none, .present, !negated, []⟩] := by
  have htruthy := Operand.isTruthy_number_iff n
  obtain ⟨f, hf, hconditions⟩ := ofJson_exists_number hkey hdollar hpath n
  obtain ⟨g, hg, hconditions'⟩ := ofJson_not_exists_number hkey hdollar hpath n
  refine ⟨by rw [Json.ofBytes?_toUTF8, Json.ofText?_of_spells hs], htruthy,
    !(Operand.plain (.number n)).isTruthy, f, g, ?_, hf, hconditions, hg, ?_⟩
  · rw [← htruthy, Bool.not_eq_true', Bool.not_eq_true]
  · rw [Bool.not_not]
    exact hconditions'

/-- The shortest literal of the smallest positive number, with a capital mark. -/
theorem ofJson_exists_literal_smallest :
    ∃ n f, Numeral.Spells n "5E-324".toList ∧ Binary64.Covers n.value ∧
      ofJson (.object [("a.b", .object [("$exists", .number n)])]) = .ok f ∧
      f.conditions = [.leaf ⟨[.named "a", .named "b"]⟩ ⟨none, .present, false, []⟩] := by
  have hs : Numeral.Spells ⟨false, 5, [], some ⟨true, 3, [2, 4]⟩⟩ "5E-324".toList :=
    Numeral.ofText?_eq_some_iff.1 (by decide +kernel)
  have htruthy : (Operand.plain (.number ⟨false, 5, [], some ⟨true, 3, [2, 4]⟩⟩)).isTruthy := by
    decide +kernel
  have hpath : Path.ofText "a.b" = .ok ⟨[.named "a", .named "b"]⟩ := by decide +kernel
  obtain ⟨-, hiff, negated, f, g, hnegated, hf, hconditions, -⟩ :=
    ofJson_exists_literal hs (by decide) (by decide) hpath
  have hcovers := hiff.1 htruthy
  obtain rfl : negated = false := Bool.eq_false_iff.2 fun h => hnegated.1 h hcovers
  exact ⟨_, f, hs, hcovers, hf, hconditions⟩

end Filter

end DocFilter
