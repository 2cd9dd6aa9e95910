import DocFilter.Filter.Expression
import DocFilter.Proofs.Expression.Grammar

/-!
# The expressions of conditions

The text of a condition spells an expression of the grammar. The expression is given by recursion
on the condition; where the text leaves parentheses out, the grammar does not need them.

## Main definitions

* `Operand.passings`, `Condition.passings`: the values that are passed to variables.
* `Operand.reference`: what stands for an operand in an expression.
* `Test.phrase`, `Condition.phrase`: the expressions of tests and conditions.

## Main results

* `Condition.render_snd`: a condition passes the values of its operands, in order.
* `Condition.spells_render`: the text of a condition spells its expression.
-/

namespace DocFilter

/-! ### Words and symbols -/

theorem delimits_open : Delimits "(" [.openParen] :=
  delimits_symbols rfl

theorem delimits_close : Delimits ")" [.closeParen] :=
  delimits_symbols rfl

theorem delimits_close_close : Delimits "))" [.closeParen, .closeParen] :=
  delimits_symbols rfl

/-- A text may be closed behind anything. -/
theorem Spells.close {s : String} {ts : List Token} (h : Spells s ts) :
    Delimits (s ++ ")") (ts ++ [.closeParen]) :=
  h.append_delimits delimits_close ⟨_, _, rfl, rfl, by decide⟩

theorem Spells.close_close {s : String} {ts : List Token} (h : Spells s ts) :
    Delimits (s ++ "))") (ts ++ [.closeParen, .closeParen]) :=
  h.append_delimits delimits_close_close ⟨_, _, rfl, rfl, by decide⟩

/-- A word of the language before a parenthesis or a blank. -/
theorem delimits_word (w : String) {s : String} {ts : List Token} (hw : needsQuoting w = false)
    (h : Delimits s ts) (hs : StartsApart s) : Delimits (w ++ s) (.word w :: ts) :=
  (spells_word hw).append_delimits h hs

theorem delimits_exists : Delimits "exists(" [.word "exists", .openParen] :=
  delimits_word "exists" rfl delimits_open ⟨_, _, rfl, rfl, by decide⟩

/-! ### Paths -/

namespace Path

theorem spells_extent : (e : Extent) → Spells e.text e.tokens
  | .index n => spells_number n
  | .range low high => by
      have hblank : Delimits " " [] := delimits_symbols rfl
      have hto : Delimits " to " [.word "to"] :=
        hblank.append (delimits_word "to" rfl hblank ⟨_, _, rfl, rfl, by decide⟩)
      have hlow := (spells_number low).append_delimits hto ⟨_, _, rfl, rfl, by decide⟩
      exact hlow.append_spells (spells_number high)

theorem spells_extents (es : List Extent) :
    Spells (String.intercalate "," (es.map Extent.text))
      (List.intercalate [.comma] (es.map Extent.tokens)) := by
  have hcomma : Delimits "," [.comma] := delimits_symbols rfl
  refine spells_intercalate hcomma ⟨_, _, rfl, rfl, by decide⟩ ?_
  rw [List.forall₂_map_left_iff, List.forall₂_map_right_iff, List.forall₂_same]
  exact fun e _ => spells_extent e

/-- A step with its dot spells its tokens. -/
theorem spells_step : {s : Step} → s.Writable → Spells (s.dot ++ s.sqlText) s.tokens
  | .field name quoted, h => by
      have hdot : Delimits "." [.dot] := delimits_symbols rfl
      cases quoted with
      | true => exact (hdot.append (delimits_quoteName name)).spells
      | false => exact hdot.append_spells (spells_word (h rfl))
  | .wildcard, _ => (delimits_symbols rfl : Delimits ".*" [.dot, .star]).spells
  | .array .all, _ =>
      (delimits_symbols rfl : Delimits "[*]" [.openBracket, .star, .closeBracket]).spells
  | .array (.list es), _ => by
      have hopen : Delimits "[" [.openBracket] := delimits_symbols rfl
      have hclose : Delimits "]" [.closeBracket] := delimits_symbols rfl
      have hbody := (hopen.append_spells (spells_extents es)).append_delimits hclose
        ⟨_, _, rfl, rfl, by decide⟩
      simpa [Step.dot, Step.isArray, Step.sqlText, Subscript.text, Step.tokens, Subscript.tokens]
        using hbody.spells

/-- A step begins apart from the step before it. -/
theorem startsApart_step (s : Step) : StartsApart (s.dot ++ s.sqlText) := by
  have hdot : StartsApart "." := ⟨_, _, rfl, rfl, by decide⟩
  have hbracket : StartsApart "[" := ⟨_, _, rfl, rfl, by decide⟩
  cases s with
  | field name quoted => exact hdot.append
  | wildcard => exact hdot.append
  | array subscript =>
    rw [show (Step.array subscript).dot = "" from rfl, String.empty_append, Step.sqlText]
    cases subscript with
    | all => exact ⟨_, _, rfl, rfl, by decide⟩
    | list es => exact hbracket.append.append

theorem spells_sqlSteps : (steps : List Step) → (∀ s ∈ steps, s.Writable) →
    Spells (sqlSteps steps) (steps.flatMap Step.tokens)
  | [], _ => (delimits_symbols rfl : Delimits "" []).spells
  | [s], h => by
      have hstep := spells_step (h s List.mem_cons_self)
      simpa [sqlSteps] using hstep
  | s :: s' :: steps, h => by
      have hstep := spells_step (h s List.mem_cons_self)
      have hsteps := spells_sqlSteps (s' :: steps) fun s hs => h s (List.mem_cons_of_mem _ hs)
      have hapart : StartsApart (sqlSteps (s' :: steps)) := by
        rw [sqlSteps, List.map_cons, String.join_cons]
        exact (startsApart_step s').append
      rw [sqlSteps, List.map_cons, String.join_cons, List.flatMap_cons]
      exact hstep.append hsteps hapart

/-- A path spells its tokens. -/
theorem spells_query {p : Path} (h : p.Writable) :
    Spells (p.query '@') (Subject.tokens ⟨p, none⟩) := by
  have hitem : Delimits "@" [.item] := delimits_symbols rfl
  rw [Subject.tokens, Subject.methodTokens, List.append_nil]
  exact hitem.append_spells (spells_sqlSteps p.steps h)

/-- The path to the elements of a final array. -/
def each (p : Path) : Path :=
  if p.endsWithArray then p else ⟨p.steps ++ [.array .all]⟩

theorem queryEach_eq (base : Char) (p : Path) : p.queryEach base = p.each.query base := by
  unfold queryEach each
  split
  · rw [String.append_empty]
  · simp [query, sqlSteps, String.append_assoc, Step.dot, Step.isArray, Step.sqlText,
      Subscript.text]

theorem Writable.each {p : Path} (h : p.Writable) : p.each.Writable := by
  unfold Path.each
  split
  · exact h
  · intro s hs
    rcases List.mem_append.1 hs with hs | hs
    · exact h s hs
    · rw [List.mem_singleton.1 hs]
      trivial

end Path

theorem Modifier.needsQuoting_name (m : Modifier) : needsQuoting m.name = false := by
  cases m <;> rfl

/-- The path of a test, with the method of its modifier. -/
theorem Test.spells_predicate {path : Path} (h : path.Writable) (t : Test) :
    Spells (t.predicate path) (Subject.tokens ⟨path, t.modifier⟩) := by
  have hpath := Path.spells_query h
  unfold Test.predicate
  cases t.modifier with
  | none =>
    rw [String.append_empty]
    exact hpath
  | some m =>
    have hdot : Delimits "." [.dot] := delimits_symbols rfl
    have hcall : Delimits "()" [.openParen, .closeParen] := delimits_symbols rfl
    have hmethod := hdot.append (delimits_word m.name m.needsQuoting_name hcall
      ⟨_, _, rfl, rfl, by decide⟩)
    have hall := hpath.append_delimits hmethod (StartsApart.append ⟨_, _, rfl, rfl, by decide⟩)
    simpa [Subject.tokens, Subject.methodTokens, Modifier.itemMethod] using hall.spells

/-! ### Operands -/

namespace Operand

/-- The value that an operand passes to a variable, if it is not written into the expression. -/
def passings (o : Operand) : List Passing :=
  match o.inline?, o.bind? with
  | none, some bind => [⟨bind, o.conversion⟩]
  | _, _ => []

/-- What stands for an operand where `next` is the first free variable. -/
def reference (next : Nat) (o : Operand) : Reference :=
  match o.scalar with
  | .null => .null
  | .bool b => .bool b
  | .string s => if s = "true" ∨ s = "false" ∨ s = "null" then .text s else .parameter next
  | .number _ => .parameter next

/-- What stands for some operands in a row. -/
def references (next : Nat) : List Operand → List Reference
  | [] => []
  | o :: os => o.reference next :: references (next + o.passings.length) os

theorem length_references : (next : Nat) → (os : List Operand) →
    (references next os).length = os.length
  | _, [] => rfl
  | _, _ :: os => congrArg (· + 1) (length_references _ os)

theorem render_snd (next : Nat) (o : Operand) : (o.render next).2 = o.passings := by
  unfold render passings
  cases o.inline? <;> cases o.bind? <;> rfl

theorem renderAll_snd : (next : Nat) → (os : List Operand) →
    (renderAll next os).2 = os.flatMap passings
  | _, [] => rfl
  | next, o :: os => by
      rw [renderAll, List.flatMap_cons, ← render_snd next o]
      exact congrArg ((o.render next).2 ++ ·) (renderAll_snd _ os)

theorem quoteName_eq_self {s : String} (h : s.toList.flatMap escapeNameChar = s.toList) :
    quoteName s = "\"" ++ s ++ "\"" := by
  rw [quoteName, h, String.ofList_toList]

/-- The text of an operand spells what stands for it. -/
theorem spells_render (next : Nat) (o : Operand) :
    Spells (o.render next).1 [(o.reference next).token] := by
  obtain ⟨scalar, sense⟩ := o
  cases scalar with
  | null => exact (spells_word rfl : Spells "null" _)
  | bool b =>
    cases b with
    | true => exact (spells_word rfl : Spells "true" _)
    | false => exact (spells_word rfl : Spells "false" _)
  | number n => exact spells_parameter next
  | string s =>
    by_cases hs : s = "true" ∨ s = "false" ∨ s = "null"
    · have hquote : quoteName s = "\"" ++ s ++ "\"" := by
        rcases hs with rfl | rfl | rfl <;> exact quoteName_eq_self (by decide)
      simp only [render, inline?, reference, if_pos hs, ← hquote]
      exact (delimits_quoteName s).spells
    · simp only [render, inline?, bind?, reference, if_neg hs]
      exact spells_parameter next

theorem spells_renderAll : (next : Nat) → (os : List Operand) →
    List.Forall₂ Spells (renderAll next os).1 ((references next os).map fun r => [r.token])
  | _, [] => .nil
  | next, o :: os => by
      have hrest := spells_renderAll (next + o.passings.length) os
      rw [← render_snd next o] at hrest
      rw [references, ← render_snd next o]
      exact .cons (spells_render next o) hrest

end Operand

/-! ### Joined phrases -/

instance : Inhabited Phrase :=
  ⟨.delimited (.present ⟨.root, none⟩)⟩

/-- Phrases with `&&` between them; there is at least one. -/
def Conjunction.ofPhrases : List Phrase → Conjunction
  | [] => .single default
  | [p] => .single p
  | p :: ps => .and p (ofPhrases ps)

/-- Phrases with `||` between them; there is at least one. -/
def Disjunction.ofPhrases : List Phrase → Disjunction
  | [] => .single (.single default)
  | [p] => .single (.single p)
  | p :: ps => .or (.single p) (ofPhrases ps)

namespace Junction

/-- The connective of a junction as a token. -/
def sign : Junction → Token
  | and => .and
  | or => .or

/-- Phrases joined by a junction; there is at least one. -/
def join : Junction → List Phrase → Disjunction
  | and, ps => .single (Conjunction.ofPhrases ps)
  | or, ps => Disjunction.ofPhrases ps

theorem delimits_separator : (j : Junction) → Delimits (Condition.separator j) [j.sign]
  | and => delimits_operator '&' ['&'] rfl (by decide) (by decide) fun _ => rfl
  | or => delimits_operator '|' ['|'] rfl (by decide) (by decide) fun _ => rfl

theorem startsApart_separator : (j : Junction) → StartsApart (Condition.separator j)
  | and => ⟨_, _, rfl, rfl, by decide⟩
  | or => ⟨_, _, rfl, rfl, by decide⟩

theorem tokens_join_cons_cons (j : Junction) (p p' : Phrase) (ps : List Phrase) :
    (j.join (p :: p' :: ps)).tokens = p.tokens ++ j.sign :: (j.join (p' :: ps)).tokens := by
  cases j with
  | and => simp [join, sign, Conjunction.ofPhrases, Disjunction.tokens, Conjunction.tokens]
  | or => simp [join, sign, Disjunction.ofPhrases, Disjunction.tokens, Conjunction.tokens]

theorem tokens_join_singleton (j : Junction) (p : Phrase) : (j.join [p]).tokens = p.tokens := by
  cases j with
  | and => simp [join, Conjunction.ofPhrases, Disjunction.tokens, Conjunction.tokens]
  | or => simp [join, Disjunction.ofPhrases, Disjunction.tokens, Conjunction.tokens]

theorem tokens_join (j : Junction) : {ps : List Phrase} → ps ≠ [] →
    (j.join ps).tokens = List.intercalate [j.sign] (ps.map Phrase.tokens)
  | [p], _ => by
      rw [tokens_join_singleton, List.map_singleton, List.intercalate_singleton]
  | p :: p' :: ps, _ => by
      rw [tokens_join_cons_cons, tokens_join j (List.cons_ne_nil p' ps), List.map_cons,
        List.map_cons, List.map_cons, List.intercalate_cons_cons, List.append_assoc,
        List.singleton_append]

theorem writable_join (j : Junction) : {ps : List Phrase} → ps ≠ [] → (∀ p ∈ ps, p.Writable) →
    (j.join ps).Writable
  | [p], _, h => by
      have hp := h p List.mem_cons_self
      cases j <;> exact hp
  | p :: p' :: ps, _, h => by
      have hp := h p List.mem_cons_self
      have hps := writable_join j (List.cons_ne_nil p' ps) fun q hq =>
        h q (List.mem_cons_of_mem _ hq)
      cases j <;> exact ⟨hp, hps⟩

/-- Texts with the sign of a junction between them spell the joined phrases. -/
theorem spells_join (j : Junction) {texts : List String} {ps : List Phrase} (hne : ps ≠ [])
    (h : List.Forall₂ Spells texts (ps.map Phrase.tokens)) :
    Spells (String.intercalate (Condition.separator j) texts) (j.join ps).tokens := by
  rw [j.tokens_join hne]
  exact spells_intercalate j.delimits_separator j.startsApart_separator h

end Junction

/-! ### Tests -/

/-- How a relation compares a value with one of its operands. -/
def Relation.comparator : Relation → Comparator
  | eq | oneOf | all | present => .eq
  | gt => .gt
  | gte => .gte
  | lt => .lt
  | lte => .lte
  | startsWith => .startsWith
  | regex => .regex
  | like => .like
  | hasSubstring => .hasSubstring

theorem delimits_eq : Delimits " == " [.eq] :=
  delimits_operator '=' ['='] rfl (by decide) (by decide) fun _ => rfl

/-- The token of a relation stands between blanks. -/
theorem Relation.delimits_token {relation : Relation} (h : relation ≠ .present) :
    Delimits (" " ++ relation.token ++ " ") relation.comparator.tokens := by
  have hblank : Delimits " " [] := delimits_symbols rfl
  have hword (w : String) (hw : needsQuoting w = false) : Delimits (w ++ " ") [.word w] :=
    delimits_word w hw hblank ⟨_, _, rfl, rfl, by decide⟩
  cases relation with
  | eq | oneOf | all => exact delimits_eq
  | gt => exact delimits_operator '>' [] rfl (by decide) (by decide) fun _ => rfl
  | gte => exact delimits_operator '>' ['='] rfl (by decide) (by decide) fun _ => rfl
  | lt => exact delimits_operator '<' [] rfl (by decide) (by decide) fun _ => rfl
  | lte => exact delimits_operator '<' ['='] rfl (by decide) (by decide) fun _ => rfl
  | present => exact absurd rfl h
  | startsWith => exact hblank.append ((hword "starts" rfl).append (hword "with" rfl))
  | regex => exact hblank.append (hword "like_regex" rfl)
  | like => exact hblank.append (hword "like" rfl)
  | hasSubstring => exact hblank.append ((hword "has" rfl).append (hword "substring" rfl))

/-- A phrase in parentheses. -/
def Phrase.enclosed (p : Phrase) : Delimited :=
  .paren (.single (.single p))

theorem Phrase.tokens_enclosed (p : Phrase) :
    p.enclosed.tokens = .openParen :: (p.tokens ++ [.closeParen]) := rfl

namespace Test

/-- The phrase of a test that is not for presence, without its negation. -/
def bodyPhrase (features : Features) (s : Subject) (relation : Relation) (rs : List Reference) :
    Phrase :=
  match relation, features, rs with
  | .oneOf, .modern, _ :: _ :: _ => .oneOf s rs
  | .oneOf, .legacy, _ :: _ :: _ =>
    .delimited (.paren (Junction.or.join (rs.map (Phrase.compare s .eq))))
  | .all, _, _ :: _ :: _ =>
    .delimited (.paren (Junction.and.join (rs.map (Phrase.compare s .eq))))
  | relation, _, rs => .compare s relation.comparator (rs.headD .null)

theorem bodyPhrase_singleton (features : Features) (s : Subject) (relation : Relation)
    (r : Reference) : bodyPhrase features s relation [r] = .compare s relation.comparator r := by
  cases relation <;> cases features <;> rfl

/-- The phrase of a test where `next` is the first free variable. -/
def phrase (features : Features) (next : Nat) (path : Path) (t : Test) : Phrase :=
  let s : Subject := ⟨path, t.modifier⟩
  if t.relation = .present then
    if t.negated then .delimited (Phrase.enclosed (.not (.present s))) else .delimited (.present s)
  else
    let body := bodyPhrase features s t.relation (Operand.references next t.operands)
    if t.negated then .delimited (Phrase.enclosed (.not body.enclosed)) else body

variable {predicate : String} {s : Subject}

/-- Equations with a sign between them. -/
theorem spells_equations (j : Junction) (hpredicate : Spells predicate s.tokens)
    {texts : List String} {rs : List Reference} (hne : rs ≠ [])
    (h : List.Forall₂ Spells texts (rs.map fun r => [r.token])) :
    Spells (equations predicate (Condition.separator j) texts)
      (Delimited.paren (j.join (rs.map (Phrase.compare s .eq)))).tokens := by
  have hequation (text : String) (r : Reference) (htext : Spells text [r.token]) :
      Spells (predicate ++ " == " ++ text) (Phrase.compare s .eq r).tokens :=
    (hpredicate.append_delimits delimits_eq ⟨_, _, rfl, rfl, by decide⟩).append_spells htext
  have hequations : List.Forall₂ Spells (texts.map fun o => predicate ++ " == " ++ o)
      ((rs.map (Phrase.compare s .eq)).map Phrase.tokens) := by
    rw [List.map_map, List.forall₂_map_left_iff, List.forall₂_map_right_iff]
    rw [List.forall₂_map_right_iff] at h
    exact h.imp fun text r => hequation text r
  have hjoined := j.spells_join (by simpa using hne) hequations
  exact (delimits_open.append_spells hjoined).close.spells

theorem spells_list (hpredicate : Spells predicate s.tokens) {texts : List String}
    {rs : List Reference} (h : List.Forall₂ Spells texts (rs.map fun r => [r.token])) :
    Spells (predicate ++ " in (" ++ String.intercalate "," texts ++ ")")
      (Phrase.oneOf s rs).tokens := by
  have hblank : Delimits " " [] := delimits_symbols rfl
  have hopen : Delimits " (" [.openParen] := delimits_symbols rfl
  have hcomma : Delimits "," [.comma] := delimits_symbols rfl
  have hin : Delimits " in (" [.word "in", .openParen] :=
    hblank.append (delimits_word "in" rfl hopen ⟨_, _, rfl, rfl, by decide⟩)
  have hlist := spells_intercalate hcomma ⟨_, _, rfl, rfl, by decide⟩ h
  have hall := (hpredicate.append_delimits hin ⟨_, _, rfl, rfl, by decide⟩).append_spells hlist
  simpa [Phrase.tokens, Reference.tokens] using hall.close.spells

/-- A comparison with one operand. -/
theorem spells_compare {relation : Relation} (hrelation : relation ≠ .present)
    (hpredicate : Spells predicate s.tokens) {text : String} {r : Reference}
    (htext : Spells text [r.token]) :
    Spells (predicate ++ " " ++ relation.token ++ " " ++ text)
      (Phrase.compare s relation.comparator r).tokens := by
  have hsign := Relation.delimits_token hrelation
  have hall := (hpredicate.append_delimits hsign (StartsApart.append
    (StartsApart.append ⟨_, _, rfl, rfl, by decide⟩))).append_spells htext
  simpa [Phrase.tokens, String.append_assoc] using hall

/-- The text of a test without its negation. -/
theorem spells_body (features : Features) {relation : Relation} (hrelation : relation ≠ .present)
    (hpredicate : Spells predicate s.tokens) {texts : List String} {rs : List Reference}
    (hsized : rs.length = 1 ∨ rs ≠ [] ∧ (relation = .oneOf ∨ relation = .all))
    (h : List.Forall₂ Spells texts (rs.map fun r => [r.token])) :
    Spells (body features predicate relation texts) (bodyPhrase features s relation rs).tokens := by
  match rs, texts, h with
  | [], _, _ => simp at hsized
  | [r], [text], .cons htext .nil =>
    have hcompare := spells_compare hrelation hpredicate htext
    rw [bodyPhrase_singleton]
    cases relation <;> simpa [body] using hcompare
  | r :: r' :: rs, text :: text' :: texts, h =>
    have hne : r :: r' :: rs ≠ [] := List.cons_ne_nil _ _
    have hlist : relation = .oneOf ∨ relation = .all := by simpa using hsized
    rcases hlist with rfl | rfl
    · cases features with
      | legacy => exact spells_equations .or hpredicate hne h
      | modern => exact spells_list hpredicate h
    · cases features <;> exact spells_equations .and hpredicate hne h

/-- How many operands stand in a test that is not for presence. -/
theorem Sized.length_references {t : Test} (h : t.Sized) (hrelation : t.relation ≠ .present)
    (next : Nat) :
    (Operand.references next t.operands).length = 1 ∨
      Operand.references next t.operands ≠ [] ∧ (t.relation = .oneOf ∨ t.relation = .all) := by
  rw [← List.length_pos_iff, Operand.length_references, List.length_pos_iff]
  unfold Sized at h
  split at h
  · next hpresent => exact absurd hpresent hrelation
  · next hone => exact Or.inr ⟨h, Or.inl hone⟩
  · next hall => exact Or.inr ⟨h, Or.inr hall⟩
  · exact Or.inl h

/-- **The text of a test spells its phrase.** -/
theorem spells_render (features : Features) (next : Nat) {path : Path} (hpath : path.Writable)
    {t : Test} (ht : t.Sized) :
    Spells (t.render features next path).1 (t.phrase features next path).tokens := by
  have hpredicate := t.spells_predicate hpath
  unfold render phrase
  dsimp only
  split
  · split
    · have hopen : Delimits "(!" [.openParen, .bang] := delimits_symbols rfl
      have hall := ((hopen.append delimits_exists).append_spells hpredicate).close_close.spells
      simpa [Phrase.tokens, Phrase.tokens_enclosed, Delimited.tokens] using hall
    · exact (delimits_exists.append_spells hpredicate).close.spells
  · next hrelation =>
    have hbody := spells_body features hrelation hpredicate (ht.length_references hrelation next)
      (Operand.spells_renderAll next t.operands)
    split
    · have hopen : Delimits "(!(" [.openParen, .bang, .openParen] := delimits_symbols rfl
      simpa [Phrase.tokens, Phrase.tokens_enclosed] using
        (hopen.append_spells hbody).close_close.spells
    · exact hbody

theorem writable_bodyPhrase (features : Features) (relation : Relation) (rs : List Reference)
    (hs : s.path.Writable) : (bodyPhrase features s relation rs).Writable := by
  have hequations (j : Junction) {rs : List Reference} (hne : rs ≠ []) :
      (j.join (rs.map (Phrase.compare s .eq))).Writable := by
    refine j.writable_join (by simpa using hne) ?_
    simpa [Phrase.Writable] using fun _ _ => hs
  unfold bodyPhrase
  split
  · exact ⟨hs, List.cons_ne_nil _ _⟩
  · exact hequations .or (List.cons_ne_nil _ _)
  · exact hequations .and (List.cons_ne_nil _ _)
  · exact hs

theorem writable_phrase (features : Features) (next : Nat) {path : Path} (hpath : path.Writable)
    (t : Test) : (t.phrase features next path).Writable := by
  have hbody := writable_bodyPhrase (s := ⟨path, t.modifier⟩) features t.relation
    (Operand.references next t.operands) hpath
  unfold phrase
  dsimp only
  split <;> split
  · exact hpath
  · exact hpath
  · exact hbody
  · exact hbody

end Test

/-! ### Conditions -/

namespace Condition

/-- The values that a condition passes to variables, in order. -/
def passings (c : Condition) : List Passing :=
  (operands [c]).flatMap Operand.passings

/-- The phrase of a group around the phrases of its children. A negation takes over the parentheses
of its only child if it is `wrapped`. -/
def groupPhrase (junction : Junction) (negated wrapped : Bool) (ps : List Phrase) : Phrase :=
  if negated then
    match wrapped, ps with
    | true, [.delimited d] => .delimited (Phrase.enclosed (.not d))
    | _, ps => .delimited (Phrase.enclosed (.not (.paren (junction.join ps))))
  else
    match ps with
    | [p] => p
    | ps => .delimited (.paren (junction.join ps))

mutual

/-- The phrase of a condition where `next` is the first free variable. -/
def phrase (features : Features) (next : Nat) : Condition → Phrase
  | leaf path test => test.phrase features next path
  | group junction negated children =>
    groupPhrase junction negated (wrapsItself children) (phrases features next children)
  | within path children =>
    .delimited (.within path.each (Junction.and.join (phrases features next children)))

/-- The phrases of conditions in a row. -/
def phrases (features : Features) (next : Nat) : List Condition → List Phrase
  | [] => []
  | c :: cs => c.phrase features next :: phrases features (next + c.passings.length) cs

end

theorem phrases_ne_nil {features : Features} {next : Nat} {cs : List Condition} (h : cs ≠ []) :
    phrases features next cs ≠ [] := by
  cases cs with
  | nil => exact absurd rfl h
  | cons c cs =>
    rw [phrases]
    exact List.cons_ne_nil _ _

theorem length_phrases (features : Features) : (next : Nat) → (cs : List Condition) →
    (phrases features next cs).length = cs.length
  | _, [] => by rw [phrases]; rfl
  | _, _ :: cs => by
      rw [phrases, List.length_cons, List.length_cons, length_phrases]

mutual

/-- **A condition passes the values of its operands, in order.** -/
theorem render_snd (features : Features) (next : Nat) :
    (c : Condition) → (c.render features next).2 = c.passings
  | leaf path t => by
      rw [render, passings, operands, leavesOfAll, leaves, leavesOfAll]
      simpa [Test.render] using Operand.renderAll_snd next t.operands
  | group j negated children => by
      have h := renderAll_snd features next children
      simpa [render, passings, operands, leavesOfAll, leaves] using h
  | within path children => by
      have h := renderAll_snd features next children
      simpa [render, passings, operands, leavesOfAll, leaves] using h

theorem renderAll_snd (features : Features) (next : Nat) :
    (cs : List Condition) → (renderAll features next cs).2 = (operands cs).flatMap Operand.passings
  | [] => rfl
  | c :: cs => by
      rw [renderAll, operands_cons, List.flatMap_append]
      exact congrArg₂ (· ++ ·) (render_snd features next c) (renderAll_snd features _ cs)

end

/-- A condition that is in parentheses anyway has a delimited phrase. -/
theorem phrases_of_wrapsItself {cs : List Condition} (h : wrapsItself cs = true)
    (features : Features) (next : Nat) : ∃ d, phrases features next cs = [.delimited d] := by
  unfold wrapsItself at h
  split at h
  · rw [phrases, phrases, phrase]
    unfold Test.phrase
    dsimp only
    split <;> exact ⟨_, rfl⟩
  · next j negated children =>
    rw [phrases, phrases, phrase]
    unfold groupPhrase
    split
    · split <;> exact ⟨_, rfl⟩
    · next hnegated =>
      have hlength : 1 < (phrases features next children).length := by
        rw [length_phrases]
        simpa [hnegated] using h
      split
      · next hsingle => simp [hsingle] at hlength
      · exact ⟨_, rfl⟩
  · cases h

/-- The text of a group around the joined texts of its children. -/
theorem spells_wrap (junction : Junction) (negated : Bool) {features : Features} {next : Nat}
    {children : List Condition} {joined : String}
    (h : Spells joined (junction.join (phrases features next children)).tokens) :
    Spells (wrap negated children joined)
      (groupPhrase junction negated (wrapsItself children)
        (phrases features next children)).tokens := by
  unfold wrap groupPhrase
  by_cases hnegated : negated = true
  · rw [if_pos hnegated, if_pos hnegated]
    by_cases hwrapped : wrapsItself children = true
    · obtain ⟨d, hd⟩ := phrases_of_wrapsItself hwrapped features next
      have hopen : Delimits "(!" [.openParen, .bang] := delimits_symbols rfl
      rw [hd, Junction.tokens_join_singleton] at h
      rw [if_pos hwrapped, hwrapped, hd]
      exact (hopen.append_spells h).close.spells
    · have hopen : Delimits "(!(" [.openParen, .bang, .openParen] := delimits_symbols rfl
      rw [if_neg hwrapped, Bool.eq_false_iff.2 hwrapped]
      simpa [Phrase.tokens, Phrase.tokens_enclosed, Delimited.tokens] using
        (hopen.append_spells h).close_close.spells
  · rw [if_neg hnegated, if_neg hnegated]
    have hlength := length_phrases features next children
    split
    · next hone =>
      obtain ⟨p, hp⟩ := List.length_eq_one_iff.1 (hlength.trans hone)
      rw [hp, Junction.tokens_join_singleton] at h
      rw [hp]
      exact h
    · next hone =>
      split
      · next p hp => exact absurd (by simpa [hp] using hlength.symm) hone
      · exact (delimits_open.append_spells h).close.spells

mutual

/-- **The text of a condition spells its phrase.** -/
theorem spells_render (features : Features) (next : Nat) :
    (c : Condition) → c.WellFormed →
      Spells (c.render features next).1 (c.phrase features next).tokens
  | leaf path t, h => by
      rw [render, phrase]
      exact Test.spells_render features next h.1 h.2
  | group j negated children, h => by
      rw [render, phrase]
      exact spells_wrap j negated
        (j.spells_join (phrases_ne_nil h.1) (spells_renderAll features next children h.2))
  | within path children, h => by
      have hjoined := Junction.and.spells_join (phrases_ne_nil h.2.1)
        (spells_renderAll features next children h.2.2)
      have hpath := delimits_exists.append_spells (Path.spells_query h.1.each)
      have hopen : Delimits "?(" [.question, .openParen] := delimits_symbols rfl
      have hall := ((hpath.append_delimits hopen ⟨_, _, rfl, rfl, by decide⟩).append_spells
        hjoined).close_close.spells
      rw [render, phrase, Path.queryEach_eq]
      simpa [Phrase.tokens, Delimited.tokens, separator] using hall

theorem spells_renderAll (features : Features) (next : Nat) :
    (cs : List Condition) → AllWellFormed cs →
      List.Forall₂ Spells (renderAll features next cs).1
        ((phrases features next cs).map Phrase.tokens)
  | [], _ => by
      rw [renderAll, phrases]
      exact .nil
  | c :: cs, h => by
      rw [renderAll, phrases, ← render_snd features next c]
      exact .cons (spells_render features next c h.1) (spells_renderAll features _ cs h.2)

end

mutual

theorem writable_phrase (features : Features) (next : Nat) :
    (c : Condition) → c.WellFormed → (c.phrase features next).Writable
  | leaf path t, h => by
      rw [phrase]
      exact Test.writable_phrase features next h.1 t
  | group j negated children, h => by
      have hphrases := writable_phrases features next children h.2
      have hjoin := j.writable_join (phrases_ne_nil h.1) hphrases
      rw [phrase]
      unfold groupPhrase
      split
      · split
        · next hd =>
          have hphrase := hphrases _ (hd ▸ List.mem_cons_self)
          exact hphrase
        · exact hjoin
      · split
        · next hp => exact hphrases _ (hp ▸ List.mem_cons_self)
        · exact hjoin
  | within path children, h => by
      have hphrases := writable_phrases features next children h.2.2
      rw [phrase]
      exact ⟨h.1.each, Junction.and.writable_join (phrases_ne_nil h.2.1) hphrases⟩

theorem writable_phrases (features : Features) (next : Nat) :
    (cs : List Condition) → AllWellFormed cs → ∀ p ∈ phrases features next cs, p.Writable
  | [], _ => by
      rw [phrases]
      exact fun p hp => absurd hp List.not_mem_nil
  | c :: cs, h => by
      rw [phrases, List.forall_mem_cons]
      exact ⟨writable_phrase features next c h.1, writable_phrases features _ cs h.2⟩

end

end Condition

end DocFilter
