import DocFilter.Filter.Basic
import DocFilter.Proofs.Expression.Rendition

/-!
# The truth of expressions

An expression and the conditions that it was written for are given a truth value for every choice
of what the single comparisons mean and what the paths select. Both agree, so the text of a filter,
read by the rules of the grammar, says what its conditions say.

## Main definitions

* `Valuation`: the truth of single comparisons, and the items that paths select.
* `Disjunction.Holds`: the truth of an expression.
* `Condition.HoldsFrom`: the truth of a condition whose operands are numbered from a given variable.

## Main results

* `Condition.holds_phrase`: a condition and its phrase have the same truth value.
* `Expression.exists_ofText?_holds_iff`: the text of a filter is read as its conditions.
-/

namespace DocFilter

universe u

variable {α : Type u}

/-- What the parts of an expression mean at an item: the comparisons of a subject with a reference,
the presence of a subject, and the items that a path selects. -/
structure Valuation (α : Type u) where
  compare : Subject → Comparator → Reference → α → Prop
  present : Subject → α → Prop
  selects : Path → α → α → Prop

variable (V : Valuation α)

/-! ### Expressions -/

mutual

/-- The truth of a delimited phrase at an item. -/
def Delimited.Holds : Delimited → α → Prop
  | .present s, a => V.present s a
  | .within path body, a => ∃ b, V.selects path a b ∧ body.Holds b
  | .paren body, a => body.Holds a

/-- The truth of a phrase at an item. -/
def Phrase.Holds : Phrase → α → Prop
  | .compare s c r, a => V.compare s c r a
  | .oneOf s rs, a => ∃ r ∈ rs, V.compare s .eq r a
  | .delimited d, a => d.Holds a
  | .not d, a => ¬d.Holds a

/-- The truth of a conjunction at an item. -/
def Conjunction.Holds : Conjunction → α → Prop
  | .single p, a => p.Holds a
  | .and p c, a => p.Holds a ∧ c.Holds a

/-- The truth of an expression at an item. -/
def Disjunction.Holds : Disjunction → α → Prop
  | .single c, a => c.Holds a
  | .or c d, a => c.Holds a ∨ d.Holds a

end

/-! ### Conditions -/

/-- The truth of a test whose operands are numbered from `next` on. A membership is a disjunction of
equations, all other relations are conjunctions. -/
def Test.HoldsFrom (next : Nat) (path : Path) (t : Test) (a : α) : Prop :=
  let s : Subject := ⟨path, t.modifier⟩
  let rs := Operand.references next t.operands
  let body :=
    match t.relation with
    | .present => V.present s a
    | .oneOf => ∃ r ∈ rs, V.compare s .eq r a
    | relation => ∀ r ∈ rs, V.compare s relation.comparator r a
  if t.negated then ¬body else body

namespace Condition

mutual

/-- The truth of a condition whose operands are numbered from `next` on. -/
def HoldsFrom (next : Nat) : Condition → α → Prop
  | leaf path test, a => test.HoldsFrom V next path a
  | group .and false children, a => AllHoldFrom next children a
  | group .or false children, a => SomeHoldsFrom next children a
  | group .and true children, a => ¬AllHoldFrom next children a
  | group .or true children, a => ¬SomeHoldsFrom next children a
  | within path children, a => ∃ b, V.selects path.each a b ∧ AllHoldFrom next children b

/-- All conditions in a row hold. -/
def AllHoldFrom (next : Nat) : List Condition → α → Prop
  | [], _ => True
  | c :: cs, a => c.HoldsFrom next a ∧ AllHoldFrom (next + c.passings.length) cs a

/-- Some condition in a row holds. -/
def SomeHoldsFrom (next : Nat) : List Condition → α → Prop
  | [], _ => False
  | c :: cs, a => c.HoldsFrom next a ∨ SomeHoldsFrom (next + c.passings.length) cs a

end

end Condition

variable {V} {a : α}

/-! ### Agreement -/

theorem Conjunction.holds_ofPhrases : {ps : List Phrase} → ps ≠ [] →
    ((Conjunction.ofPhrases ps).Holds V a ↔ ∀ p ∈ ps, p.Holds V a)
  | [p], _ => by rw [Conjunction.ofPhrases, Conjunction.Holds, List.forall_mem_singleton]
  | p :: p' :: ps, _ => by
      have ih := Conjunction.holds_ofPhrases (List.cons_ne_nil p' ps)
      rw [Conjunction.ofPhrases, Conjunction.Holds, ih, List.forall_mem_cons (a := p)]
      exact List.cons_ne_nil p' ps

theorem Disjunction.holds_ofPhrases : {ps : List Phrase} → ps ≠ [] →
    ((Disjunction.ofPhrases ps).Holds V a ↔ ∃ p ∈ ps, p.Holds V a)
  | [p], _ => by simp [Disjunction.ofPhrases, Disjunction.Holds, Conjunction.Holds]
  | p :: p' :: ps, _ => by
      have ih := Disjunction.holds_ofPhrases (List.cons_ne_nil p' ps)
      rw [Disjunction.ofPhrases, Disjunction.Holds, Conjunction.Holds, ih]
      · simp only [List.exists_mem_cons_iff]
      · exact List.cons_ne_nil p' ps

theorem Phrase.holds_enclosed (p : Phrase) : p.enclosed.Holds V a ↔ p.Holds V a := by
  rw [Phrase.enclosed, Delimited.Holds, Disjunction.Holds, Conjunction.Holds]

namespace Test

/-- The truth of a test that is not for presence, without its negation. -/
theorem holds_bodyPhrase (features : Features) (s : Subject) {relation : Relation}
    {rs : List Reference}
    (hsized : rs.length = 1 ∨ rs ≠ [] ∧ (relation = .oneOf ∨ relation = .all)) :
    (bodyPhrase features s relation rs).Holds V a ↔
      if relation = .oneOf then ∃ r ∈ rs, V.compare s .eq r a
      else ∀ r ∈ rs, V.compare s relation.comparator r a := by
  match rs with
  | [] => simp at hsized
  | [r] =>
    rw [bodyPhrase_singleton, Phrase.Holds]
    cases relation <;> simp [Relation.comparator]
  | r :: r' :: rs =>
    have hne : (r :: r' :: rs).map (Phrase.compare s .eq) ≠ [] := by simp
    have hlist : relation = .oneOf ∨ relation = .all := by simpa using hsized
    rcases hlist with rfl | rfl
    · rw [if_pos rfl]
      cases features with
      | legacy =>
        rw [bodyPhrase, Phrase.Holds, Delimited.Holds, Junction.join,
          Disjunction.holds_ofPhrases hne]
        simp only [List.mem_map, exists_exists_and_eq_and, Phrase.Holds]
      | modern => rw [bodyPhrase, Phrase.Holds]
    · rw [if_neg (by decide)]
      have hall : (Conjunction.ofPhrases ((r :: r' :: rs).map (Phrase.compare s .eq))).Holds V a ↔
          ∀ r'' ∈ r :: r' :: rs, V.compare s .eq r'' a := by
        rw [Conjunction.holds_ofPhrases hne, List.forall_mem_map]
        simp only [Phrase.Holds]
      cases features <;> exact hall

theorem holds_phrase (features : Features) (next : Nat) (path : Path) {t : Test} (ht : t.Sized) :
    (t.phrase features next path).Holds V a ↔ t.HoldsFrom V next path a := by
  obtain ⟨modifier, relation, negated, operands⟩ := t
  by_cases hrelation : relation = .present
  · subst hrelation
    cases negated <;>
      simp [phrase, HoldsFrom, Phrase.Holds, Delimited.Holds, Phrase.holds_enclosed]
  · have hbody := holds_bodyPhrase (V := V) (a := a) features ⟨path, modifier⟩
      (ht.length_references hrelation next)
    have htruth : (bodyPhrase features ⟨path, modifier⟩ relation
        (Operand.references next operands)).Holds V a ↔
        HoldsFrom V next path ⟨modifier, relation, false, operands⟩ a := by
      rw [hbody]
      cases relation <;> simp_all [HoldsFrom, Relation.comparator]
    cases negated with
    | false => simpa [phrase, hrelation] using htruth
    | true =>
      simpa [phrase, hrelation, Phrase.Holds, Phrase.holds_enclosed, HoldsFrom] using
        not_congr htruth

end Test

namespace Condition

/-- The truth of a group, from that of its joined children. -/
theorem holds_groupPhrase (j : Junction) (negated wrapped : Bool) {ps : List Phrase} :
    (groupPhrase j negated wrapped ps).Holds V a ↔
      if negated then ¬(j.join ps).Holds V a else (j.join ps).Holds V a := by
  have hsingle (p : Phrase) : (j.join [p]).Holds V a ↔ p.Holds V a := by
    cases j <;>
      simp [Junction.join, Conjunction.ofPhrases, Disjunction.ofPhrases, Disjunction.Holds,
        Conjunction.Holds]
  unfold groupPhrase
  split
  · split
    · rw [Phrase.Holds, Phrase.holds_enclosed, Phrase.Holds, hsingle, Phrase.Holds]
    · rw [Phrase.Holds, Phrase.holds_enclosed, Phrase.Holds, Delimited.Holds]
  · split
    · rw [hsingle]
    · rw [Phrase.Holds, Delimited.Holds]

mutual

/-- **A condition and its phrase have the same truth value.** -/
theorem holds_phrase (features : Features) (next : Nat) :
    (c : Condition) → c.WellFormed → (a : α) →
      ((c.phrase features next).Holds V a ↔ c.HoldsFrom V next a)
  | leaf path t, h, a => by
      rw [phrase, HoldsFrom]
      exact Test.holds_phrase features next path h.2
  | group .and negated children, h, a => by
      have hall := forall_holds_phrases features next children h.2 a
      rw [← Conjunction.holds_ofPhrases (phrases_ne_nil h.1)] at hall
      rw [phrase, holds_groupPhrase, Junction.join, Disjunction.Holds, hall]
      cases negated <;> simp [HoldsFrom]
  | group .or negated children, h, a => by
      have hsome := exists_holds_phrases features next children h.2 a
      rw [← Disjunction.holds_ofPhrases (phrases_ne_nil h.1)] at hsome
      rw [phrase, holds_groupPhrase, Junction.join, hsome]
      cases negated <;> simp [HoldsFrom]
  | within path children, h, a => by
      rw [phrase, Phrase.Holds, Delimited.Holds, HoldsFrom]
      refine exists_congr fun b => and_congr_right fun _ => ?_
      rw [Junction.join, Disjunction.Holds, Conjunction.holds_ofPhrases (phrases_ne_nil h.2.1)]
      exact forall_holds_phrases features next children h.2.2 b

theorem forall_holds_phrases (features : Features) (next : Nat) :
    (cs : List Condition) → AllWellFormed cs → (a : α) →
      ((∀ p ∈ phrases features next cs, p.Holds V a) ↔ AllHoldFrom V next cs a)
  | [], _, a => by simp [phrases, AllHoldFrom]
  | c :: cs, h, a => by
      rw [phrases, List.forall_mem_cons, AllHoldFrom, holds_phrase features next c h.1 a,
        forall_holds_phrases features _ cs h.2 a]

theorem exists_holds_phrases (features : Features) (next : Nat) :
    (cs : List Condition) → AllWellFormed cs → (a : α) →
      ((∃ p ∈ phrases features next cs, p.Holds V a) ↔ SomeHoldsFrom V next cs a)
  | [], _, a => by simp [phrases, SomeHoldsFrom]
  | c :: cs, h, a => by
      rw [phrases, SomeHoldsFrom, ← holds_phrase features next c h.1 a,
        ← exists_holds_phrases features _ cs h.2 a]
      simp only [List.exists_mem_cons_iff]

end

end Condition

/-! ### Filters -/

/-- **The text of a filter is read as its conditions.** For an engine of either level, the text of
the expression is an expression of the grammar, and its truth value is that of the conditions,
whatever the comparisons in it mean and the paths in it select. -/
theorem Expression.exists_ofText?_holds_iff {d : Json} {f : Filter} (h : Filter.ofJson d = .ok f)
    {features : Features} {e : Expression}
    (he : Expression.ofConditions? features f.conditions = some e) :
    ∃ φ, Disjunction.ofText? e.text = some φ ∧
      ∀ {α : Type u} (V : Valuation α) (a : α),
        φ.Holds V a ↔ Condition.AllHoldFrom V 0 f.conditions a := by
  have hwf := Filter.allWellFormed_conditions h
  unfold Expression.ofConditions? at he
  split at he
  · cases he
  · next hempty =>
    obtain rfl := Option.some.inj he
    have hne : Condition.phrases features 0 f.conditions ≠ [] :=
      Condition.phrases_ne_nil (by simpa using hempty)
    refine ⟨Junction.and.join (Condition.phrases features 0 f.conditions), ?_, fun V a => ?_⟩
    · exact Disjunction.ofText?_of_spells
        (Junction.and.writable_join hne (Condition.writable_phrases features 0 _ hwf))
        (Junction.and.spells_join hne (Condition.spells_renderAll features 0 _ hwf))
    · rw [Junction.join, Disjunction.Holds, Conjunction.holds_ofPhrases hne]
      exact Condition.forall_holds_phrases features 0 _ hwf a

/-- A membership under a negated disjunction, beside a name that looks like the end of a string and
of the literal around it. -/
theorem Expression.exists_ofText?_holds_iff_quoted :
    ∃ d e, d = Json.object
        [("$nor", .array [.object [("a", .object [("$in", .array [.null, .string "x"])])],
            .object [("it's \"||", .object [("$not", .object [("$ne", .bool true)])])]]),
          ("b", .object [("c.d", .object [("$upper", .object [("$like", .string "X%")])])])] ∧
      e = ⟨"(!((@.a == null || @.a == $B0) || @.\"it''s \\\"||\" == true)) && " ++
          "exists(@.b[*]?(@.c.d.upper() like $B1))",
        [⟨.text "x", .plain⟩, ⟨.text "X%", .plain⟩]⟩ ∧
      ∃ f, Filter.ofJson d = .ok f ∧ Expression.ofConditions? .legacy f.conditions = some e ∧
        ∃ φ, Disjunction.ofText? e.text = some φ ∧
          ∀ {α : Type} (V : Valuation α) (a : α),
            φ.Holds V a ↔ Condition.AllHoldFrom V 0 f.conditions a := by
  have hread (d : Json) (e : Expression)
      (h : ((Filter.ofJson d).toOption.bind fun f =>
        Expression.ofConditions? .legacy f.conditions) = some e) :
      ∃ f, Filter.ofJson d = .ok f ∧ Expression.ofConditions? .legacy f.conditions = some e ∧
        ∃ φ, Disjunction.ofText? e.text = some φ ∧
          ∀ {α : Type} (V : Valuation α) (a : α),
            φ.Holds V a ↔ Condition.AllHoldFrom V 0 f.conditions a := by
    cases hd : Filter.ofJson d with
    | error _ => rw [hd] at h; cases h
    | ok f =>
      rw [hd] at h
      exact ⟨f, rfl, h, Expression.exists_ofText?_holds_iff hd h⟩
  exact ⟨_, _, rfl, rfl, hread _ _ (by decide +kernel)⟩

end DocFilter
