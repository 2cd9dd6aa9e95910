import DocFilter.Proofs.Layout.Walk

/-!
# Operands and variables

An expression mentions the variables `$B0`, `$B1`, … once each and in this order, and the values
that are passed to them are the operands that are not written into the expression.

## Main definitions

* `Token.parameters`: the numbers of the variables among some tokens.

## Main results

* `Operand.forall₂_passings`: which operands are passed, and how.
* `Condition.parameters_phrase`: the variables of a condition follow each other.
-/

namespace DocFilter

/-! ### Passed operands -/

/-- The operands that are not written into the expression are passed, each with its conversion. -/
theorem Operand.forall₂_passings (os : List Operand) :
    List.Forall₂ (fun o p => o.bind? = some p.value ∧ o.conversion = p.conversion)
      (os.filter fun o => o.inline?.isNone) (os.flatMap Operand.passings) := by
  induction os with
  | nil => exact .nil
  | cons o os ih =>
    rw [List.flatMap_cons, Operand.passings]
    cases hinline : o.inline? with
    | some literal =>
      rw [List.filter_cons_of_neg (by simp [hinline])]
      exact ih
    | none =>
      rw [List.filter_cons_of_pos (by simp [hinline])]
      cases hbind : o.bind? with
      | some bind => exact .cons ⟨hbind, rfl⟩ ih
      | none =>
        -- what is not a value to bind is written into the expression
        unfold Operand.inline? at hinline
        unfold Operand.bind? at hbind
        cases hscalar : o.scalar <;> simp [hscalar] at hinline hbind

/-! ### Variables of an expression -/

namespace Token

/-- The number of the variable that a token is. -/
def parameter? : Token → Option Nat
  | parameter n => some n
  | _ => none

/-- The numbers of the variables among some tokens, in order. -/
def parameters (ts : List Token) : List Nat :=
  ts.filterMap parameter?

theorem parameters_append (ts ts' : List Token) :
    parameters (ts ++ ts') = parameters ts ++ parameters ts' :=
  List.filterMap_append

theorem parameters_cons (t : Token) (ts : List Token) :
    parameters (t :: ts) = t.parameter?.toList ++ parameters ts := by
  cases h : t.parameter? with
  | none => rw [parameters, List.filterMap_cons_none h]; rfl
  | some n => rw [parameters, List.filterMap_cons_some h]; rfl

end Token

open Token

theorem parameters_intercalate {us : List Token} (hus : parameters us = []) :
    (tss : List (List Token)) → parameters (List.intercalate us tss) = tss.flatMap parameters
  | [] => rfl
  | [ts] => by rw [List.intercalate_singleton, List.flatMap_singleton]
  | ts :: ts' :: tss => by
      rw [List.intercalate_cons_cons, parameters_append, parameters_append, hus, List.append_nil,
        parameters_intercalate hus (ts' :: tss), ← List.flatMap_cons]

theorem Step.parameters_tokens (s : Step) : parameters s.tokens = [] := by
  have hextents (es : List Extent) :
      parameters (List.intercalate [.comma] (es.map Extent.tokens)) = [] := by
    rw [parameters_intercalate rfl, List.flatMap_eq_nil_iff, List.forall_mem_map]
    intro e _
    cases e <;> rfl
  cases s with
  | field name quoted => cases quoted <;> rfl
  | wildcard => rfl
  | array subscript =>
    cases subscript with
    | all => rfl
    | list es =>
      rw [Step.tokens, Subscript.tokens, parameters_cons, parameters_append, hextents es]
      rfl

/-- A path mentions no variable. -/
theorem Subject.parameters_tokens (s : Subject) : parameters s.tokens = [] := by
  have hsteps : parameters (s.path.steps.flatMap Step.tokens) = [] := by
    rw [parameters, List.filterMap_flatMap, List.flatMap_eq_nil_iff]
    exact fun step _ => step.parameters_tokens
  rw [Subject.tokens, parameters_cons, parameters_append, hsteps]
  cases s.method <;> rfl

theorem Reference.parameters_map_token (rs : List Reference) :
    parameters (rs.map Reference.token) = rs.flatMap fun r => parameters [r.token] := by
  induction rs with
  | nil => rfl
  | cons r rs ih =>
    rw [List.map_cons, ← List.singleton_append, parameters_append, ih, List.flatMap_cons]

namespace Operand

/-- The variables that some references mention. -/
theorem parameters_references : (next : Nat) → (os : List Operand) →
    parameters ((references next os).map Reference.token) =
      List.range' next (os.flatMap passings).length
  | _, [] => rfl
  | next, o :: os => by
      have hfirst : parameters [(o.reference next).token] = List.range' next o.passings.length := by
        obtain ⟨scalar, sense⟩ := o
        cases scalar with
        | null => rfl
        | bool b => cases b <;> rfl
        | number n => rfl
        | string s =>
          by_cases hs : s = "true" ∨ s = "false" ∨ s = "null"
          · simp only [reference, passings, inline?, if_pos hs]
            rfl
          · simp only [reference, passings, inline?, bind?, if_neg hs]
            rfl
      rw [references, List.map_cons, ← List.singleton_append, parameters_append, hfirst,
        parameters_references _ os, List.flatMap_cons, List.length_append, List.range'_append_1]

end Operand

/-! ### Variables of conditions -/

theorem Junction.parameters_join (j : Junction) {ps : List Phrase} (hne : ps ≠ []) :
    parameters (j.join ps).tokens = ps.flatMap fun p => parameters p.tokens := by
  have hsign : parameters [j.sign] = [] := by cases j <;> rfl
  rw [j.tokens_join hne, parameters_intercalate hsign, List.flatMap_map]

theorem Phrase.parameters_compare (s : Subject) (c : Comparator) (r : Reference) :
    parameters (Phrase.compare s c r).tokens = parameters [r.token] := by
  have hcomparator : parameters c.tokens = [] := by cases c <;> rfl
  rw [Phrase.tokens, parameters_append, parameters_append, s.parameters_tokens, hcomparator,
    List.nil_append, List.nil_append]

theorem Phrase.parameters_oneOf (s : Subject) (rs : List Reference) :
    parameters (Phrase.oneOf s rs).tokens = parameters (rs.map Reference.token) := by
  rw [Phrase.tokens, parameters_append, s.parameters_tokens, parameters_cons, parameters_cons,
    parameters_append, Reference.tokens, parameters_intercalate rfl, List.flatMap_map,
    Reference.parameters_map_token]
  exact List.append_nil _

theorem Phrase.parameters_enclosed (p : Phrase) :
    parameters p.enclosed.tokens = parameters p.tokens := by
  rw [Phrase.tokens_enclosed, parameters_cons, parameters_append]
  exact List.append_nil _

namespace Test

theorem parameters_bodyPhrase (features : Features) (s : Subject) {relation : Relation}
    {rs : List Reference}
    (hsized : rs.length = 1 ∨ rs ≠ [] ∧ (relation = .oneOf ∨ relation = .all)) :
    parameters (bodyPhrase features s relation rs).tokens =
      parameters (rs.map Reference.token) := by
  have hequations (j : Junction) {rs : List Reference} (hne : rs ≠ []) :
      parameters (Delimited.paren (j.join (rs.map (Phrase.compare s .eq)))).tokens =
        parameters (rs.map Reference.token) := by
    rw [Delimited.tokens, parameters_cons, parameters_append,
      j.parameters_join (by simpa using hne), List.flatMap_map, Reference.parameters_map_token]
    simp only [Phrase.parameters_compare]
    exact List.append_nil _
  match rs with
  | [] => simp at hsized
  | [r] => rw [bodyPhrase_singleton, Phrase.parameters_compare, List.map_singleton]
  | r :: r' :: rs =>
    have hne : r :: r' :: rs ≠ [] := List.cons_ne_nil _ _
    have hlist : relation = .oneOf ∨ relation = .all := by simpa using hsized
    rcases hlist with rfl | rfl
    · cases features with
      | legacy => exact hequations .or hne
      | modern => exact Phrase.parameters_oneOf s _
    · cases features <;> exact hequations .and hne

theorem parameters_phrase (features : Features) (next : Nat) (path : Path) {t : Test}
    (ht : t.Sized) :
    parameters (t.phrase features next path).tokens =
      List.range' next (t.operands.flatMap Operand.passings).length := by
  obtain ⟨modifier, relation, negated, operands⟩ := t
  by_cases hrelation : relation = .present
  · subst hrelation
    obtain rfl : operands = [] := ht
    have hpresent : parameters (Delimited.present ⟨path, modifier⟩).tokens = [] := by
      rw [Delimited.tokens, parameters_cons, parameters_cons, parameters_append,
        Subject.parameters_tokens]
      rfl
    cases negated with
    | false => exact hpresent
    | true => exact (Phrase.parameters_enclosed (.not (.present ⟨path, modifier⟩))).trans hpresent
  · have hbody := parameters_bodyPhrase features ⟨path, modifier⟩
      (ht.length_references hrelation next)
    rw [Operand.parameters_references] at hbody
    cases negated with
    | false => simpa [phrase, hrelation] using hbody
    | true =>
      rw [phrase, if_neg hrelation, if_pos rfl, Phrase.tokens, Phrase.parameters_enclosed,
        Phrase.tokens, parameters_cons, Phrase.parameters_enclosed]
      exact hbody

end Test

namespace Condition

theorem parameters_groupPhrase (j : Junction) (negated wrapped : Bool) {ps : List Phrase}
    (hne : ps ≠ []) :
    parameters (groupPhrase j negated wrapped ps).tokens =
      ps.flatMap fun p => parameters p.tokens := by
  have hparen : parameters (Delimited.paren (j.join ps)).tokens =
      ps.flatMap fun p => parameters p.tokens := by
    rw [Delimited.tokens, parameters_cons, parameters_append, j.parameters_join hne]
    exact List.append_nil _
  have hnot (d : Delimited) :
      parameters (Phrase.delimited (Phrase.enclosed (.not d))).tokens = parameters d.tokens := by
    rw [Phrase.tokens, Phrase.parameters_enclosed, Phrase.tokens, parameters_cons]
    rfl
  unfold groupPhrase
  split
  · split
    · rw [hnot, List.flatMap_singleton, Phrase.tokens]
    · rw [hnot, hparen]
  · split
    · rw [List.flatMap_singleton]
    · rw [Phrase.tokens, hparen]

mutual

/-- **The variables of a condition follow each other** from the first free one on, and there are as
many as values are passed. -/
theorem parameters_phrase (features : Features) (next : Nat) :
    (c : Condition) → c.WellFormed →
      parameters (c.phrase features next).tokens = List.range' next c.passings.length
  | leaf path t, h => by
      rw [phrase, Test.parameters_phrase features next path h.2]
      simp [passings, operands, leavesOfAll, leaves]
  | group j negated children, h => by
      rw [phrase, parameters_groupPhrase j _ _ (phrases_ne_nil h.1),
        parameters_phrases features next children h.2, passings, operands_group]
  | within path children, h => by
      have hbody := parameters_phrases features next children h.2.2
      rw [← Junction.and.parameters_join (phrases_ne_nil h.2.1)] at hbody
      rw [phrase, Phrase.tokens, Delimited.tokens, parameters_cons, parameters_cons,
        parameters_append, Subject.parameters_tokens, parameters_cons, parameters_cons,
        parameters_append, hbody, passings, operands_within]
      exact List.append_nil _

theorem parameters_phrases (features : Features) (next : Nat) :
    (cs : List Condition) → AllWellFormed cs →
      ((phrases features next cs).flatMap fun p => parameters p.tokens) =
        List.range' next ((operands cs).flatMap Operand.passings).length
  | [], _ => by rw [phrases]; rfl
  | c :: cs, h => by
      rw [phrases, List.flatMap_cons, parameters_phrase features next c h.1,
        parameters_phrases features _ cs h.2, operands_cons, List.flatMap_append,
        List.length_append, ← List.range'_append_1, passings]

end

end Condition

end DocFilter
