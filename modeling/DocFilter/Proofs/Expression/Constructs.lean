import DocFilter.Proofs.Assembly.Basic
import DocFilter.Proofs.Expression.Rendition
import DocFilter.Proofs.Leaves
import DocFilter.Proofs.Reading.Documents

/-!
# What an expression asks of an engine

Older engines know neither lists of operands, `like` and `has substring` nor the methods `boolean`
and `length`. Which of these an expression uses is seen from its tokens: a word behind a dot is the
name of a method before a parenthesis and the name of a field otherwise, so that a field may be
called `like` or `length`.

An expression for an older engine uses what its tests ask for and nothing else, since a list of
operands is written out there, one comparison for each.

## Main definitions

* `Construct`: what only modern engines understand.
* `Token.constructs`: the constructs among some tokens.
* `Phrase.constructs`, `Disjunction.constructs`, …: the constructs of an expression, by level.
* `Test.constructs`: the constructs that a test asks for.

## Main results

* `Disjunction.constructs_tokens_append`: an expression has the constructs of its tokens.
* `Condition.mem_constructs_phrase`: a condition uses what its tests ask for on an older engine.
* `Filter.requiresModern_exact`: when a filter is said to require a modern engine.
-/

namespace DocFilter

/-- A part of an expression that only modern engines understand. -/
inductive Construct where
  /-- A list of operands, `in (…)`. -/
  | list
  | like
  /-- The comparison `has substring`. -/
  | substring
  /-- The method `boolean()`. -/
  | boolean
  /-- The method `length()`. -/
  | length
deriving DecidableEq, Repr

namespace Construct

/-- The construct that begins with a word of the language. -/
def ofWord? : String → Option Construct
  | "in" => some list
  | "like" => some like
  | "has" => some substring
  | _ => none

/-- The construct that is the call of a method. -/
def ofMethod? : String → Option Construct
  | "boolean" => some boolean
  | "length" => some length
  | _ => none

end Construct

namespace Token

/-- The constructs among some tokens, in order. A word behind a dot is the name of a method before a
parenthesis and the name of a field otherwise; any other word is one of the language. -/
def constructs : List Token → List Construct
  | [] => []
  | dot :: word name :: openParen :: ts => (Construct.ofMethod? name).toList ++ constructs ts
  | dot :: word _ :: ts => constructs ts
  | word w :: ts => (Construct.ofWord? w).toList ++ constructs ts
  | _ :: ts => constructs ts

variable (ts : List Token)

theorem constructs_call (name : String) :
    constructs (dot :: word name :: openParen :: ts) =
      (Construct.ofMethod? name).toList ++ constructs ts := rfl

theorem constructs_word (w : String) :
    constructs (word w :: ts) = (Construct.ofWord? w).toList ++ constructs ts := rfl

theorem constructs_exists :
    constructs (word "exists" :: openParen :: ts) = constructs ts := rfl

/-- Whether a token is neither a dot nor a word. -/
def isPlain : Token → Bool
  | dot | word _ => false
  | _ => true

/-- A symbol or a literal is none of the constructs. -/
theorem constructs_plain (t : Token) (ht : t.isPlain = true) :
    constructs (t :: ts) = constructs ts := by
  cases t with
  | dot | word => cases ht
  | _ => rfl

/-- A dot has a meaning before a word only. -/
theorem constructs_dot_plain (t : Token) (ht : t.isPlain = true) :
    constructs (dot :: t :: ts) = constructs ts := by
  cases t with
  | dot | word => cases ht
  | _ => rfl

variable {ts}

/-- The name of a field is none of the constructs. -/
theorem constructs_field (name : String) (hts : ∀ ts', ts ≠ openParen :: ts') :
    constructs (dot :: word name :: ts) = constructs ts := by
  cases ts with
  | nil => rfl
  | cons t ts =>
    cases t with
    | openParen => exact absurd rfl (hts ts)
    | _ => rfl

end Token

open Token

/-! ### Paths and comparisons -/

namespace Step

theorem constructs_extent (e : Extent) (rest : List Token) :
    constructs (e.tokens ++ rest) = constructs rest := by
  cases e <;> rfl

theorem constructs_extents (rest : List Token) : (es : List Extent) →
    constructs (List.intercalate [.comma] (es.map Extent.tokens) ++ rest) = constructs rest
  | [] => rfl
  | [e] => by
      rw [List.map_singleton, List.intercalate_singleton, constructs_extent]
  | e :: e' :: es => by
      have ih := constructs_extents rest (e' :: es)
      rw [List.map_cons, List.map_cons, List.intercalate_cons_cons, ← List.map_cons,
        List.append_assoc, List.append_assoc, constructs_extent, List.singleton_append,
        constructs_plain _ .comma rfl, ih]

/-- A step has no constructs. -/
theorem constructs_tokens_append (s : Step) {rest : List Token}
    (hrest : ∀ ts, rest ≠ .openParen :: ts) : constructs (s.tokens ++ rest) = constructs rest := by
  cases s with
  | field name quoted =>
    cases quoted with
    | true => exact constructs_dot_plain rest _ rfl
    | false => exact constructs_field name hrest
  | wildcard => exact constructs_dot_plain rest _ rfl
  | array subscript =>
    cases subscript with
    | all => rfl
    | list es =>
      rw [tokens, Subscript.tokens, List.cons_append, constructs_plain _ .openBracket rfl,
        List.append_assoc, constructs_extents, List.singleton_append,
        constructs_plain _ .closeBracket rfl]

end Step

/-- The constructs of a call. -/
def Modifier.constructs (m : Modifier) : List Construct :=
  (Construct.ofMethod? m.name).toList

namespace Subject

/-- The constructs of a path with its method: those of the call. -/
def constructs (s : Subject) : List Construct :=
  s.method.toList.flatMap Modifier.constructs

theorem constructs_steps_append {rest : List Token} (hrest : ∀ ts, rest ≠ .openParen :: ts)
    (steps : List Step) :
    Token.constructs (steps.flatMap Step.tokens ++ rest) = Token.constructs rest := by
  induction steps with
  | nil => rfl
  | cons step steps ih =>
    rw [List.flatMap_cons, List.append_assoc,
      step.constructs_tokens_append (flatMap_tokens_append_ne_openParen steps hrest), ih]

/-- A path with its method has the constructs of its tokens, before anything that does not make its
last step a method. -/
theorem constructs_tokens_append (s : Subject) (rest : List Token)
    (hrest : ∀ ts, rest ≠ .openParen :: ts) :
    Token.constructs (s.tokens ++ rest) = s.constructs ++ Token.constructs rest := by
  obtain ⟨⟨steps⟩, method⟩ := s
  rw [tokens, List.cons_append, constructs_plain _ .item rfl, List.append_assoc]
  cases method with
  | none => exact constructs_steps_append hrest steps
  | some m =>
    have hcall : Token.constructs (methodTokens (some m) ++ rest) =
        m.constructs ++ Token.constructs rest :=
      constructs_call (.closeParen :: rest) m.name
    rw [constructs_steps_append (by simp [methodTokens]), hcall, constructs, Option.toList_some,
      List.flatMap_singleton]

end Subject

namespace Comparator

/-- The construct that a comparator is, if there is one. -/
def constructs : Comparator → List Construct
  | like => [.like]
  | hasSubstring => [.substring]
  | _ => []

theorem constructs_tokens_append (c : Comparator) (rest : List Token) :
    Token.constructs (c.tokens ++ rest) = c.constructs ++ Token.constructs rest := by
  cases c <;> rfl

theorem tokens_append_ne_openParen (c : Comparator) (rest ts : List Token) :
    c.tokens ++ rest ≠ .openParen :: ts := by
  cases c <;> simp [tokens]

end Comparator

namespace Reference

theorem constructs_token_cons (r : Reference) (rest : List Token) :
    constructs (r.token :: rest) = constructs rest := by
  cases r with
  | bool b => cases b <;> rfl
  | _ => rfl

theorem constructs_tokens_append (rest : List Token) : (rs : List Reference) →
    constructs (tokens rs ++ rest) = constructs rest
  | [] => rfl
  | [r] => r.constructs_token_cons rest
  | r :: r' :: rs => by
      have ih := constructs_tokens_append rest (r' :: rs)
      rw [tokens_cons_cons, List.cons_append, constructs_token_cons, List.cons_append,
        constructs_plain _ .comma rfl, ih]

end Reference

/-! ### Phrases -/

mutual

/-- The constructs of an expression, in order. -/
def Delimited.constructs : Delimited → List Construct
  | .present s => s.constructs
  | .within _ body => body.constructs
  | .paren body => body.constructs

/-- As `Delimited.constructs`, where a comparison adds those of its comparator or its list. -/
def Phrase.constructs : Phrase → List Construct
  | .compare s c _ => s.constructs ++ c.constructs
  | .oneOf s _ => s.constructs ++ [.list]
  | .delimited d => d.constructs
  | .not d => d.constructs

/-- As `Delimited.constructs`, for the phrases from left to right. -/
def Conjunction.constructs : Conjunction → List Construct
  | .single p => p.constructs
  | .and p c => p.constructs ++ c.constructs

/-- As `Delimited.constructs`, for the conjunctions from left to right. -/
def Disjunction.constructs : Disjunction → List Construct
  | .single c => c.constructs
  | .or c d => c.constructs ++ d.constructs

end

mutual

theorem Delimited.constructs_tokens_append (rest : List Token) : (d : Delimited) →
    Token.constructs (d.tokens ++ rest) = d.constructs ++ Token.constructs rest
  | .present s => by
      rw [Delimited.tokens, Delimited.constructs, List.cons_append, List.cons_append,
        List.append_assoc, List.singleton_append, constructs_exists,
        s.constructs_tokens_append (.closeParen :: rest) nofun, constructs_plain _ .closeParen rfl]
  | .within path body => by
      rw [Delimited.tokens, Delimited.constructs, List.cons_append, List.cons_append,
        List.append_assoc, List.cons_append, List.cons_append, List.append_assoc,
        constructs_exists, Subject.constructs_tokens_append _ (.question :: _) nofun,
        constructs_plain _ .question rfl, constructs_plain _ .openParen rfl,
        body.constructs_tokens_append]
      rfl
  | .paren body => by
      rw [Delimited.tokens, Delimited.constructs, List.cons_append,
        constructs_plain _ .openParen rfl, List.append_assoc, body.constructs_tokens_append,
        List.singleton_append, constructs_plain _ .closeParen rfl]

theorem Phrase.constructs_tokens_append (rest : List Token) : (p : Phrase) →
    Token.constructs (p.tokens ++ rest) = p.constructs ++ Token.constructs rest
  | .compare s c r => by
      rw [Phrase.tokens, Phrase.constructs, List.append_assoc, List.append_assoc,
        List.singleton_append, s.constructs_tokens_append _ (c.tokens_append_ne_openParen _),
        c.constructs_tokens_append, r.constructs_token_cons, List.append_assoc]
  | .oneOf s rs => by
      rw [Phrase.tokens, Phrase.constructs, List.append_assoc, List.cons_append, List.cons_append,
        List.append_assoc, s.constructs_tokens_append (.word "in" :: _) nofun, constructs_word,
        constructs_plain _ .openParen rfl, Reference.constructs_tokens_append, List.append_assoc]
      rfl
  | .delimited d => d.constructs_tokens_append rest
  | .not d => by
      rw [Phrase.tokens, Phrase.constructs, List.cons_append, constructs_plain _ .bang rfl,
        d.constructs_tokens_append]

theorem Conjunction.constructs_tokens_append (rest : List Token) : (c : Conjunction) →
    Token.constructs (c.tokens ++ rest) = c.constructs ++ Token.constructs rest
  | .single p => p.constructs_tokens_append rest
  | .and p c => by
      rw [Conjunction.tokens, Conjunction.constructs, List.append_assoc,
        p.constructs_tokens_append, List.cons_append, constructs_plain _ .and rfl,
        c.constructs_tokens_append, List.append_assoc]

/-- **An expression has the constructs of its tokens.** -/
theorem Disjunction.constructs_tokens_append (rest : List Token) : (d : Disjunction) →
    Token.constructs (d.tokens ++ rest) = d.constructs ++ Token.constructs rest
  | .single c => c.constructs_tokens_append rest
  | .or c d => by
      rw [Disjunction.tokens, Disjunction.constructs, List.append_assoc,
        c.constructs_tokens_append, List.cons_append, constructs_plain _ .or rfl,
        d.constructs_tokens_append, List.append_assoc]

end

theorem Junction.constructs_join (j : Junction) : (ps : List Phrase) →
    (j.join ps).constructs = ps.flatMap Phrase.constructs
  | [] => by cases j <;> rfl
  | [p] => by cases j <;> simp [join, Conjunction.ofPhrases, Disjunction.ofPhrases,
      Disjunction.constructs, Conjunction.constructs]
  | p :: p' :: ps => by
      have ih := constructs_join j (p' :: ps)
      cases j <;> simp_all [join, Conjunction.ofPhrases, Disjunction.ofPhrases,
        Disjunction.constructs, Conjunction.constructs]

/-! ### Tests and conditions -/

namespace Test

/-- The constructs that a test asks for, whatever its operands. -/
def constructs (t : Test) : List Construct :=
  t.modifier.toList.flatMap Modifier.constructs ++ t.relation.comparator.constructs

variable {x : Construct}

/-- On an older engine a list of operands is written out, which repeats the method. -/
theorem mem_constructs_bodyPhrase (s : Subject) (relation : Relation) (rs : List Reference) :
    x ∈ (bodyPhrase .legacy s relation rs).constructs ↔
      x ∈ s.constructs ++ relation.comparator.constructs := by
  have hequations (j : Junction) (r : Reference) (rs : List Reference) :
      x ∈ (Delimited.paren (j.join ((r :: rs).map (Phrase.compare s .eq)))).constructs ↔
        x ∈ s.constructs := by
    rw [Delimited.constructs, j.constructs_join, List.flatMap_map]
    simp [Phrase.constructs, Comparator.constructs]
  have heq : Comparator.eq.constructs = [] := rfl
  unfold bodyPhrase
  split
  · contradiction
  · rw [Phrase.constructs, hequations, Relation.comparator, heq, List.append_nil]
  · rw [Phrase.constructs, hequations, Relation.comparator, heq, List.append_nil]
  · rw [Phrase.constructs]

theorem mem_constructs_phrase (next : Nat) (path : Path) (t : Test) :
    x ∈ (t.phrase .legacy next path).constructs ↔ x ∈ t.constructs := by
  have hbody := mem_constructs_bodyPhrase (x := x) ⟨path, t.modifier⟩ t.relation
    (Operand.references next t.operands)
  have hpresent (h : t.relation = .present) :
      t.constructs = Subject.constructs ⟨path, t.modifier⟩ := by
    rw [constructs, h]
    exact List.append_nil _
  unfold phrase
  dsimp only
  split
  · next h =>
    rw [hpresent h]
    split <;> exact Iff.rfl
  · split <;> exact hbody

end Test

namespace Condition

variable {x : Construct}

theorem constructs_groupPhrase (j : Junction) (negated wrapped : Bool) (ps : List Phrase) :
    (groupPhrase j negated wrapped ps).constructs = ps.flatMap Phrase.constructs := by
  have hparen : (Delimited.paren (j.join ps)).constructs = ps.flatMap Phrase.constructs :=
    j.constructs_join ps
  have hnot (d : Delimited) :
      (Phrase.delimited (Phrase.enclosed (.not d))).constructs = d.constructs := rfl
  unfold groupPhrase
  split
  · split
    · rw [hnot, List.flatMap_singleton, Phrase.constructs]
    · rw [hnot, hparen]
  · split
    · rw [List.flatMap_singleton]
    · rw [Phrase.constructs, hparen]

mutual

/-- **A condition uses what its tests ask for** in an expression for an older engine. -/
theorem mem_constructs_phrase (next : Nat) : (c : Condition) →
    (x ∈ (c.phrase .legacy next).constructs ↔ x ∈ c.leaves.flatMap fun leaf => leaf.2.constructs)
  | leaf path t => by
      rw [phrase, t.mem_constructs_phrase, leaves, List.flatMap_singleton]
  | group j negated children => by
      rw [phrase, constructs_groupPhrase, leaves, mem_constructs_phrases next children]
  | within path children => by
      rw [phrase, Phrase.constructs, Delimited.constructs, Junction.constructs_join, leaves,
        mem_constructs_phrases next children]

theorem mem_constructs_phrases (next : Nat) : (cs : List Condition) →
    (x ∈ (phrases .legacy next cs).flatMap Phrase.constructs ↔
      x ∈ (leavesOfAll cs).flatMap fun leaf => leaf.2.constructs)
  | [] => by
      rw [phrases, leavesOfAll, List.flatMap_nil, List.flatMap_nil]
  | c :: cs => by
      rw [phrases, leavesOfAll, List.flatMap_cons, List.flatMap_append, List.mem_append,
        List.mem_append, mem_constructs_phrase next c, mem_constructs_phrases _ cs]

end

end Condition

/-! ### Filters -/

end DocFilter
