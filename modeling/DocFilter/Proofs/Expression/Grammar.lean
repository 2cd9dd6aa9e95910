import DocFilter.Filter.Test
import DocFilter.Proofs.Expression.Token
import DocFilter.Proofs.Shape

/-!
# The grammar of filter expressions

The part of the filter expressions of SQL/JSON that compares values, tests for presence and joins
conditions. Negation binds tighter than `&&`, and `&&` tighter than `||`; the sign of negation
stands before a delimited phrase only, that is before parentheses or `exists`. The types of
phrases follow the levels of the grammar, so that a tree of them has its parentheses where the
grammar wants them.

## Main definitions

* `Subject`, `Comparator`, `Reference`: the parts of a comparison.
* `Delimited`, `Phrase`, `Conjunction`, `Disjunction`: the expressions, by level.
* `Disjunction.tokens`, `Disjunction.read`, `Disjunction.ofText?`: writing and reading them.

## Main results

* `Disjunction.read_tokens`: the tokens of an expression are read as this expression.
-/

namespace DocFilter

/-! ### Paths -/

/-- An index, or two with `to` between them. -/
def Extent.tokens : Extent → List Token
  | index n => [.number n]
  | range low high => [.number low, .word "to", .number high]

/-- A star or a list of entries, between brackets. -/
def Subscript.tokens : Subscript → List Token
  | all => [.openBracket, .star, .closeBracket]
  | list extents =>
    .openBracket :: (List.intercalate [.comma] (extents.map Extent.tokens) ++ [.closeBracket])

/-- A name or a star behind a dot, or a subscript. -/
def Step.tokens : Step → List Token
  | field name true => [.dot, .string name]
  | field name false => [.dot, .word name]
  | wildcard => [.dot, .star]
  | array subscript => subscript.tokens

/-- What a path leads to, converted by a method if there is one. -/
structure Subject where
  path : Path
  method : Option Modifier
deriving DecidableEq, Repr

namespace Subject

/-- The call of a method. -/
def methodTokens : Option Modifier → List Token
  | some m => [.dot, .word m.name, .openParen, .closeParen]
  | none => []

/-- The path from the item on, and the call of the method. -/
def tokens (s : Subject) : List Token :=
  .item :: (s.path.steps.flatMap Step.tokens ++ methodTokens s.method)

/-- An entry of a subscript. -/
def readExtent : List Token → Option (Extent × List Token)
  | .number low :: .word w :: .number high :: ts =>
    if w = "to" then some (.range low high, ts) else none
  | .number n :: ts => some (.index n, ts)
  | _ => none

/-- The entries of a subscript up to its closing bracket. -/
def readExtents : Nat → List Token → Option (List Extent × List Token)
  | 0, _ => none
  | bound + 1, ts => do
    let (extent, ts) ← readExtent ts
    match ts with
    | .comma :: ts =>
      let (extents, ts) ← readExtents bound ts
      return (extent :: extents, ts)
    | .closeBracket :: ts => return ([extent], ts)
    | _ => none

/-- A step of a path. A name before a parenthesis is a method. -/
def readStep : List Token → Option (Step × List Token)
  | .dot :: .star :: ts => some (.wildcard, ts)
  | .dot :: .string name :: ts => some (.field name true, ts)
  | .dot :: .word _ :: .openParen :: _ => none
  | .dot :: .word name :: ts => some (.field name false, ts)
  | .openBracket :: .star :: .closeBracket :: ts => some (.array .all, ts)
  | .openBracket :: ts =>
    (readExtents ts.length ts).map fun (extents, ts) => (.array (.list extents), ts)
  | _ => none

/-- The steps of a path, as many as there are. -/
def readSteps : Nat → List Token → List Step × List Token
  | 0, ts => ([], ts)
  | bound + 1, ts =>
    match readStep ts with
    | some (step, ts) => (step :: (readSteps bound ts).1, (readSteps bound ts).2)
    | none => ([], ts)

/-- The modifier whose method has this name. -/
def method? (name : String) : Option Modifier :=
  [Modifier.abs, .ceiling, .floor, .double, .number, .string, .upper, .lower, .length, .type, .size,
    .boolean, .date, .timestamp].find? fun m => m.name = name

/-- The call of a method, if there is one. -/
def readMethod : List Token → Option (Option Modifier × List Token)
  | .dot :: .word name :: .openParen :: .closeParen :: ts =>
    (method? name).map fun m => (some m, ts)
  | ts => some (none, ts)

/-- A path behind `@`, with the call of a method. -/
def read : List Token → Option (Subject × List Token)
  | .item :: ts =>
    (readMethod (readSteps ts.length ts).2).map fun (method, rest) =>
      (⟨⟨(readSteps ts.length ts).1⟩, method⟩, rest)
  | _ => none

/-- Whether the tokens can follow a path: neither a step nor the call of a method begins there. -/
def Ends : List Token → Prop
  | .dot :: _ | .openBracket :: _ | .openParen :: _ => False
  | _ => True

theorem method?_name (m : Modifier) : method? m.name = some m := by
  cases m <;> rfl

theorem readExtent_tokens (e : Extent) {rest : List Token}
    (hrest : ∀ w ts, rest ≠ .word w :: ts) : readExtent (e.tokens ++ rest) = some (e, rest) := by
  cases e with
  | range low high => simp [Extent.tokens, readExtent]
  | index n =>
    rw [Extent.tokens, List.singleton_append, readExtent]
    exact fun w high ts h => hrest w _ h

/-- The tokens between the brackets of a subscript are read as its entries. -/
theorem readExtents_tokens (rest : List Token) :
    (es : List Extent) → es ≠ [] → ∀ bound, es.length ≤ bound →
      readExtents bound
          (List.intercalate [.comma] (es.map Extent.tokens) ++ .closeBracket :: rest) =
        some (es, rest)
  | _, _, 0, hbound => by simp_all
  | [e], _, bound + 1, _ => by
      simp [readExtents, readExtent_tokens]
  | e :: e' :: es, _, bound + 1, hbound => by
      have ih := readExtents_tokens rest (e' :: es) (List.cons_ne_nil _ _) bound
        (Nat.le_of_succ_le_succ hbound)
      rw [List.map_cons, List.map_cons] at *
      simp [List.intercalate_cons_cons, readExtents, readExtent_tokens, ih]

/-- Every step takes a token. -/
theorem length_le_flatMap_tokens (steps : List Step) :
    steps.length ≤ (steps.flatMap Step.tokens).length := by
  induction steps with
  | nil => exact Nat.zero_le _
  | cons step steps ih =>
    have hstep : 1 ≤ step.tokens.length := by
      cases step with
      | field name quoted => cases quoted <;> simp [Step.tokens]
      | wildcard => simp [Step.tokens]
      | array subscript => cases subscript <;> simp [Step.tokens, Subscript.tokens]
    rw [List.flatMap_cons, List.length_append, List.length_cons]
    omega

theorem length_le_intercalate_comma (es : List Extent) :
    es.length ≤ (List.intercalate [.comma] (es.map Extent.tokens)).length := by
  induction es with
  | nil => exact Nat.zero_le _
  | cons e es ih =>
    have he : 1 ≤ e.tokens.length := by cases e <;> simp [Extent.tokens]
    cases es with
    | nil => simpa using he
    | cons e' es =>
      rw [List.map_cons, List.map_cons, List.intercalate_cons_cons]
      simp only [List.length_append, List.length_cons, List.map_cons] at ih ⊢
      omega

/-- A step is read before anything that does not make it a method. -/
theorem readStep_tokens {step : Step} (hstep : step.Writable) {rest : List Token}
    (hrest : ∀ ts, rest ≠ .openParen :: ts) :
    readStep (step.tokens ++ rest) = some (step, rest) := by
  cases step with
  | field name quoted =>
    cases quoted with
    | true => rfl
    | false =>
      rw [Step.tokens, List.cons_append, List.cons_append, List.nil_append, readStep]
      exact hrest
  | wildcard => rfl
  | array subscript =>
    cases subscript with
    | all => rfl
    | list es =>
      have hlength := length_le_intercalate_comma es
      have hread := readExtents_tokens rest es hstep
        (List.intercalate [.comma] (es.map Extent.tokens) ++ .closeBracket :: rest).length
        (by rw [List.length_append]; omega)
      have hstar : ∀ ts, List.intercalate [.comma] (es.map Extent.tokens) ++ .closeBracket :: rest ≠
          .star :: ts := by
        obtain ⟨e, es, rfl⟩ := List.exists_cons_of_ne_nil hstep
        cases es <;> cases e <;> simp [Extent.tokens]
      rw [Step.tokens, Subscript.tokens, List.cons_append, List.append_assoc, List.singleton_append,
        readStep, hread, Option.map_some]
      exact fun ts => hstar _

/-- Steps do not begin with a parenthesis. -/
theorem flatMap_tokens_append_ne_openParen (steps : List Step) {rest : List Token}
    (hrest : ∀ ts, rest ≠ .openParen :: ts) (ts : List Token) :
    steps.flatMap Step.tokens ++ rest ≠ .openParen :: ts := by
  cases steps with
  | nil => exact hrest ts
  | cons step steps =>
    cases step with
    | field name quoted => cases quoted <;> simp [Step.tokens]
    | wildcard => simp [Step.tokens]
    | array subscript => cases subscript <;> simp [Step.tokens, Subscript.tokens]

/-- A path is read up to the call of its method. -/
theorem readSteps_tokens {rest : List Token} (hrest : readStep rest = none)
    (hparen : ∀ ts, rest ≠ .openParen :: ts) :
    (steps : List Step) → (∀ s ∈ steps, s.Writable) → ∀ bound, steps.length ≤ bound →
      readSteps bound (steps.flatMap Step.tokens ++ rest) = (steps, rest)
  | [], _, 0, _ => rfl
  | [], _, bound + 1, _ => by rw [List.flatMap_nil, List.nil_append, readSteps, hrest]
  | _ :: _, _, 0, hbound => absurd hbound (by simp)
  | step :: steps, hsteps, bound + 1, hbound => by
      have ih := readSteps_tokens hrest hparen steps
        (fun s hs => hsteps s (List.mem_cons_of_mem _ hs)) bound (Nat.le_of_succ_le_succ hbound)
      have hnext := flatMap_tokens_append_ne_openParen steps hparen
      rw [List.flatMap_cons, List.append_assoc, readSteps,
        readStep_tokens (hsteps step List.mem_cons_self) hnext]
      dsimp only
      rw [ih]

theorem readStep_of_ends {rest : List Token} (hrest : Ends rest) : readStep rest = none := by
  unfold readStep
  split <;> first | rfl | exact hrest.elim

/-- **A path with its method is read as itself.** -/
theorem read_tokens {s : Subject} (hs : s.path.Writable) (rest : List Token) (hrest : Ends rest) :
    read (s.tokens ++ rest) = some (s, rest) := by
  obtain ⟨⟨steps⟩, method⟩ := s
  have hlength (ts : List Token) : steps.length ≤ (steps.flatMap Step.tokens ++ ts).length := by
    have hsteps := length_le_flatMap_tokens steps
    rw [List.length_append]
    omega
  rw [tokens, List.cons_append, read, List.append_assoc]
  cases method with
  | none =>
    have hparen : ∀ ts, rest ≠ .openParen :: ts := by
      rintro ts rfl
      exact hrest
    have hmethod : readMethod rest = some (none, rest) := by
      unfold readMethod
      split
      · exact hrest.elim
      · rfl
    rw [methodTokens, List.nil_append,
      readSteps_tokens (readStep_of_ends hrest) hparen steps hs _ (hlength _)]
    dsimp only
    rw [hmethod, Option.map_some]
  | some m =>
    rw [methodTokens, readSteps_tokens rfl (by simp) steps hs _ (hlength _)]
    simp [readMethod, method?_name]

end Subject

/-! ### Comparisons -/

/-- How an expression compares a value with one operand. -/
inductive Comparator where
  | eq | gt | gte | lt | lte
  | startsWith | regex | like | hasSubstring
deriving DecidableEq, Repr

namespace Comparator

/-- The sign or the words of a comparator. -/
def tokens : Comparator → List Token
  | eq => [.eq]
  | gt => [.gt]
  | gte => [.gte]
  | lt => [.lt]
  | lte => [.lte]
  | startsWith => [.word "starts", .word "with"]
  | regex => [.word "like_regex"]
  | like => [.word "like"]
  | hasSubstring => [.word "has", .word "substring"]

/-- The comparator at the start of some tokens, and the tokens after it. -/
def read : List Token → Option (Comparator × List Token)
  | .eq :: ts => some (eq, ts)
  | .gt :: ts => some (gt, ts)
  | .gte :: ts => some (gte, ts)
  | .lt :: ts => some (lt, ts)
  | .lte :: ts => some (lte, ts)
  | .word w :: ts =>
    if w = "like" then some (like, ts)
    else if w = "like_regex" then some (regex, ts)
    else
      match ts with
      | .word w' :: ts =>
        if w = "starts" ∧ w' = "with" then some (startsWith, ts)
        else if w = "has" ∧ w' = "substring" then some (hasSubstring, ts)
        else none
      | _ => none
  | _ => none

theorem read_tokens (c : Comparator) (rest : List Token) :
    read (c.tokens ++ rest) = some (c, rest) := by
  cases c <;> rfl

end Comparator

/-- What a value is compared with. -/
inductive Reference where
  | null
  | bool (b : Bool)
  | text (s : String)
  /-- The value passed to the variable with number `n`. -/
  | parameter (n : Nat)
deriving DecidableEq, Repr

namespace Reference

/-- The one token that a reference is written as. -/
def token : Reference → Token
  | null => .word "null"
  | bool true => .word "true"
  | bool false => .word "false"
  | text s => .string s
  | parameter n => .parameter n

/-- The reference at the start of some tokens, and the tokens after it. -/
def read : List Token → Option (Reference × List Token)
  | .word w :: ts =>
    if w = "null" then some (null, ts)
    else if w = "true" then some (bool true, ts)
    else if w = "false" then some (bool false, ts)
    else none
  | .string s :: ts => some (text s, ts)
  | .parameter n :: ts => some (parameter n, ts)
  | _ => none

/-- The references of a list up to its closing parenthesis. -/
def readAll : Nat → List Token → Option (List Reference × List Token)
  | 0, _ => none
  | bound + 1, ts => do
    let (r, ts) ← read ts
    match ts with
    | .comma :: ts =>
      let (rs, ts) ← readAll bound ts
      return (r :: rs, ts)
    | .closeParen :: ts => return ([r], ts)
    | _ => none

/-- The references of a list with commas between them. -/
def tokens (rs : List Reference) : List Token :=
  List.intercalate [.comma] (rs.map fun r => [r.token])

theorem read_token (r : Reference) (rest : List Token) :
    read (r.token :: rest) = some (r, rest) := by
  cases r with
  | bool b => cases b <;> rfl
  | _ => rfl

theorem tokens_cons_cons (r r' : Reference) (rs : List Reference) :
    tokens (r :: r' :: rs) = r.token :: .comma :: tokens (r' :: rs) := by
  rw [tokens, List.map_cons, List.map_cons, List.intercalate_cons_cons]
  rfl

theorem length_le_tokens : (rs : List Reference) → rs.length ≤ (tokens rs).length
  | [] => Nat.zero_le _
  | [r] => by simp [tokens]
  | r :: r' :: rs => by
      have ih := length_le_tokens (r' :: rs)
      rw [tokens_cons_cons]
      exact Nat.succ_le_succ (Nat.le_succ_of_le ih)

theorem readAll_tokens (rest : List Token) :
    (rs : List Reference) → rs ≠ [] → ∀ bound, rs.length ≤ bound →
      readAll bound (tokens rs ++ .closeParen :: rest) = some (rs, rest)
  | _, _, 0, hbound => by simp_all
  | [r], _, bound + 1, _ => by simp [tokens, readAll, read_token]
  | r :: r' :: rs, _, bound + 1, hbound => by
      have ih := readAll_tokens rest (r' :: rs) (List.cons_ne_nil _ _) bound
        (Nat.le_of_succ_le_succ hbound)
      simp [tokens_cons_cons, readAll, read_token, ih]

end Reference

/-! ### Phrases -/

mutual

/-- A condition that has a beginning and an end of its own. -/
inductive Delimited where
  | present (subject : Subject)
  /-- Some item at the path satisfies the condition. -/
  | within (path : Path) (body : Disjunction)
  | paren (body : Disjunction)

/-- A condition without a connective outside of parentheses. -/
inductive Phrase where
  | compare (subject : Subject) (comparator : Comparator) (reference : Reference)
  | oneOf (subject : Subject) (references : List Reference)
  | delimited (d : Delimited)
  | not (d : Delimited)

/-- Phrases with `&&` between them. -/
inductive Conjunction where
  | single (p : Phrase)
  | and (p : Phrase) (c : Conjunction)

/-- Conjunctions with `||` between them. -/
inductive Disjunction where
  | single (c : Conjunction)
  | or (c : Conjunction) (d : Disjunction)

end

mutual

/-- A test of existence, or an expression between parentheses. -/
def Delimited.tokens : Delimited → List Token
  | .present s => .word "exists" :: .openParen :: (s.tokens ++ [.closeParen])
  | .within path body =>
    .word "exists" :: .openParen ::
      (Subject.tokens ⟨path, none⟩ ++ .question :: .openParen ::
        (body.tokens ++ [.closeParen, .closeParen]))
  | .paren body => .openParen :: (body.tokens ++ [.closeParen])

/-- A comparison, or a delimited condition with or without a negation before it. -/
def Phrase.tokens : Phrase → List Token
  | .compare s c r => s.tokens ++ c.tokens ++ [r.token]
  | .oneOf s rs => s.tokens ++ .word "in" :: .openParen :: (Reference.tokens rs ++ [.closeParen])
  | .delimited d => d.tokens
  | .not d => .bang :: d.tokens

/-- Phrases with `&&` between them, as tokens. -/
def Conjunction.tokens : Conjunction → List Token
  | .single p => p.tokens
  | .and p c => p.tokens ++ .and :: c.tokens

/-- Conjunctions with `||` between them, as tokens. -/
def Disjunction.tokens : Disjunction → List Token
  | .single c => c.tokens
  | .or c d => c.tokens ++ .or :: d.tokens

end

/-- A comparison behind its subject. -/
def Phrase.readComparison (s : Subject) : List Token → Option (Phrase × List Token)
  | .word w :: .openParen :: ts =>
    if w = "in" then
      (Reference.readAll ts.length ts).map fun (rs, ts) => (.oneOf s rs, ts)
    else none
  | ts => do
    let (c, ts) ← Comparator.read ts
    let (r, ts) ← Reference.read ts
    return (.compare s c r, ts)

mutual

/-- The delimited condition at the start of some tokens. A word before a parenthesis has to be
`exists`, and what follows the subject decides whether its items are restricted. -/
def Delimited.read : Nat → List Token → Option (Delimited × List Token)
  | bound + 1, .openParen :: ts => do
    let (body, ts) ← Disjunction.read bound ts
    match ts with
    | .closeParen :: ts => return (.paren body, ts)
    | _ => none
  | bound + 1, .word w :: .openParen :: ts =>
    if w = "exists" then do
      let (s, ts) ← Subject.read ts
      match ts with
      | .closeParen :: ts => return (.present s, ts)
      | .question :: .openParen :: ts =>
        if s.method = none then do
          let (body, ts) ← Disjunction.read bound ts
          match ts with
          | .closeParen :: .closeParen :: ts => return (.within s.path body, ts)
          | _ => none
        else none
      | _ => none
    else none
  | _, _ => none

/-- The phrase at the start of some tokens, by its first token: a negation, the subject of a
comparison, or else a delimited condition. -/
def Phrase.read : Nat → List Token → Option (Phrase × List Token)
  | 0, _ => none
  | bound + 1, .bang :: ts => (Delimited.read bound ts).map fun (d, ts) => (.not d, ts)
  | _ + 1, .item :: ts => do
    let (s, ts) ← Subject.read (.item :: ts)
    Phrase.readComparison s ts
  | bound + 1, ts => (Delimited.read bound ts).map fun (d, ts) => (.delimited d, ts)

/-- As many phrases as `&&` joins, from the left. -/
def Conjunction.read : Nat → List Token → Option (Conjunction × List Token)
  | 0, _ => none
  | bound + 1, ts => do
    let (p, ts) ← Phrase.read bound ts
    match ts with
    | .and :: ts => (Conjunction.read bound ts).map fun (c, ts) => (.and p c, ts)
    | ts => return (.single p, ts)

/-- As many conjunctions as `||` joins, from the left. -/
def Disjunction.read : Nat → List Token → Option (Disjunction × List Token)
  | 0, _ => none
  | bound + 1, ts => do
    let (c, ts) ← Conjunction.read bound ts
    match ts with
    | .or :: ts => (Disjunction.read bound ts).map fun (d, ts) => (.or c d, ts)
    | ts => return (.single c, ts)

end

/-- The expression that some tokens are. Between two tokens the reader goes down four levels. -/
def Disjunction.ofTokens? (ts : List Token) : Option Disjunction :=
  match Disjunction.read (4 * ts.length + 4) ts with
  | some (d, []) => some d
  | _ => none

/-- The expression in a text that stands inside a literal of SQL. -/
def Disjunction.ofText? (s : String) : Option Disjunction :=
  Token.ofText? s >>= Disjunction.ofTokens?

/-! ### Reading what is written -/

mutual

/-- Whether all paths of an expression can be written, and no list in it is empty. -/
def Delimited.Writable : Delimited → Prop
  | .present s => s.path.Writable
  | .within path body => path.Writable ∧ body.Writable
  | .paren body => body.Writable

/-- As `Delimited.Writable`; a list of references has to have one. -/
def Phrase.Writable : Phrase → Prop
  | .compare s _ _ => s.path.Writable
  | .oneOf s rs => s.path.Writable ∧ rs ≠ []
  | .delimited d => d.Writable
  | .not d => d.Writable

/-- As `Delimited.Writable`, for all phrases. -/
def Conjunction.Writable : Conjunction → Prop
  | .single p => p.Writable
  | .and p c => p.Writable ∧ c.Writable

/-- As `Delimited.Writable`, for all conjunctions. -/
def Disjunction.Writable : Disjunction → Prop
  | .single c => c.Writable
  | .or c d => c.Writable ∧ d.Writable

end

theorem Comparator.ends_tokens (c : Comparator) (ts : List Token) :
    Subject.Ends (c.tokens ++ ts) := by
  cases c <;> trivial

theorem Phrase.readComparison_compare (s : Subject) (c : Comparator) (r : Reference)
    (rest : List Token) :
    readComparison s (c.tokens ++ r.token :: rest) = some (.compare s c r, rest) := by
  have hlist : ∀ w ts, c.tokens ++ r.token :: rest ≠ .word w :: .openParen :: ts := by
    cases r with
    | bool b => cases b <;> cases c <;> simp [Comparator.tokens, Reference.token]
    | _ => cases c <;> simp [Comparator.tokens, Reference.token]
  rw [readComparison]
  · simp [Comparator.read_tokens, Reference.read_token]
  · exact fun w ts => hlist w ts

theorem Phrase.readComparison_oneOf (s : Subject) {rs : List Reference} (hrs : rs ≠ [])
    (rest : List Token) :
    readComparison s (.word "in" :: .openParen :: (Reference.tokens rs ++ .closeParen :: rest)) =
      some (.oneOf s rs, rest) := by
  rw [readComparison, if_pos rfl, Reference.readAll_tokens rest rs hrs _ ?_, Option.map_some]
  have hlength := Reference.length_le_tokens rs
  rw [List.length_append]
  omega

/-- A phrase that begins with a path is a comparison. -/
theorem Phrase.read_subject {s : Subject} (hs : s.path.Writable) (rest : List Token)
    (hrest : Subject.Ends rest) (bound : Nat) :
    Phrase.read (bound + 1) (s.tokens ++ rest) = readComparison s rest := by
  have hread := Subject.read_tokens hs rest hrest
  rw [Subject.tokens, List.cons_append] at hread ⊢
  rw [Phrase.read, hread]
  rfl

mutual

/-- The tokens of an expression are read as this expression. A delimited phrase is read before
anything; a conjunction has to end where it could go on. -/
theorem Delimited.read_tokens : (d : Delimited) → d.Writable → ∀ bound rest,
    4 * d.tokens.length ≤ bound → Delimited.read bound (d.tokens ++ rest) = some (d, rest)
  | .present s, hd, bound, rest, hbound => by
      simp only [Delimited.tokens, List.length_cons] at hbound
      obtain ⟨bound, rfl⟩ := Nat.exists_eq_add_one.2 (show 0 < bound by omega)
      have hread := Subject.read_tokens hd (.closeParen :: rest) trivial
      simp [Delimited.tokens, Delimited.read, hread]
  | .within path body, hd, bound, rest, hbound => by
      simp only [Delimited.tokens, List.length_cons, List.length_append] at hbound
      obtain ⟨bound, rfl⟩ := Nat.exists_eq_add_one.2 (show 0 < bound by omega)
      have hbody := Disjunction.read_tokens body hd.2 bound (.closeParen :: .closeParen :: rest)
        (by simp) (by simp) (by omega)
      have hread := Subject.read_tokens (s := ⟨path, none⟩) hd.1
        (.question :: .openParen :: (body.tokens ++ .closeParen :: .closeParen :: rest)) trivial
      simp [Delimited.tokens, Delimited.read, hread, hbody]
  | .paren body, hd, bound, rest, hbound => by
      simp only [Delimited.tokens, List.length_cons, List.length_append] at hbound
      obtain ⟨bound, rfl⟩ := Nat.exists_eq_add_one.2 (show 0 < bound by omega)
      have hbody := Disjunction.read_tokens body hd bound (.closeParen :: rest)
        (by simp) (by simp) (by omega)
      simp [Delimited.tokens, Delimited.read, hbody]

theorem Phrase.read_tokens : (p : Phrase) → p.Writable → ∀ bound rest,
    4 * p.tokens.length + 1 ≤ bound → Phrase.read bound (p.tokens ++ rest) = some (p, rest)
  | .compare s c r, hp, bound, rest, hbound => by
      obtain ⟨bound, rfl⟩ := Nat.exists_eq_add_one.2 (show 0 < bound by omega)
      rw [Phrase.tokens, List.append_assoc, List.append_assoc,
        Phrase.read_subject hp _ (c.ends_tokens _), List.singleton_append,
        Phrase.readComparison_compare]
  | .oneOf s rs, hp, bound, rest, hbound => by
      obtain ⟨bound, rfl⟩ := Nat.exists_eq_add_one.2 (show 0 < bound by omega)
      have hread := Phrase.read_subject hp.1
        (.word "in" :: .openParen :: (Reference.tokens rs ++ .closeParen :: rest)) trivial bound
      rw [Phrase.tokens, List.append_assoc, List.cons_append, List.cons_append, List.append_assoc,
        List.singleton_append, hread, Phrase.readComparison_oneOf s hp.2 rest]
  | .delimited d, hp, bound, rest, hbound => by
      rw [Phrase.tokens] at hbound ⊢
      obtain ⟨bound, rfl⟩ := Nat.exists_eq_add_one.2 (show 0 < bound by omega)
      rw [Phrase.read, Delimited.read_tokens d hp bound rest (by omega), Option.map_some]
      all_goals cases d <;> simp [Delimited.tokens]
  | .not d, hp, bound, rest, hbound => by
      rw [Phrase.tokens, List.length_cons] at hbound
      obtain ⟨bound, rfl⟩ := Nat.exists_eq_add_one.2 (show 0 < bound by omega)
      rw [Phrase.tokens, List.cons_append, Phrase.read,
        Delimited.read_tokens d hp bound rest (by omega), Option.map_some]

theorem Conjunction.read_tokens : (c : Conjunction) → c.Writable → ∀ bound rest,
    (∀ ts, rest ≠ .and :: ts) → 4 * c.tokens.length + 2 ≤ bound →
    Conjunction.read bound (c.tokens ++ rest) = some (c, rest)
  | .single p, hc, bound, rest, hrest, hbound => by
      rw [Conjunction.tokens] at hbound ⊢
      obtain ⟨bound, rfl⟩ := Nat.exists_eq_add_one.2 (show 0 < bound by omega)
      have hp := Phrase.read_tokens p hc bound rest (by omega)
      simp [Conjunction.read, hp]
  | .and p c, hc, bound, rest, hrest, hbound => by
      rw [Conjunction.tokens, List.length_append, List.length_cons] at hbound
      obtain ⟨bound, rfl⟩ := Nat.exists_eq_add_one.2 (show 0 < bound by omega)
      have hp := Phrase.read_tokens p hc.1 bound (.and :: (c.tokens ++ rest)) (by omega)
      have hc := Conjunction.read_tokens c hc.2 bound rest hrest (by omega)
      simp [Conjunction.tokens, Conjunction.read, hp, hc]

theorem Disjunction.read_tokens : (d : Disjunction) → d.Writable → ∀ bound rest,
    (∀ ts, rest ≠ .and :: ts) → (∀ ts, rest ≠ .or :: ts) → 4 * d.tokens.length + 3 ≤ bound →
    Disjunction.read bound (d.tokens ++ rest) = some (d, rest)
  | .single c, hd, bound, rest, hand, hor, hbound => by
      rw [Disjunction.tokens] at hbound ⊢
      obtain ⟨bound, rfl⟩ := Nat.exists_eq_add_one.2 (show 0 < bound by omega)
      have hc := Conjunction.read_tokens c hd bound rest hand (by omega)
      simp [Disjunction.read, hc]
  | .or c d, hd, bound, rest, hand, hor, hbound => by
      rw [Disjunction.tokens, List.length_append, List.length_cons] at hbound
      obtain ⟨bound, rfl⟩ := Nat.exists_eq_add_one.2 (show 0 < bound by omega)
      have hc := Conjunction.read_tokens c hd.1 bound (.or :: (d.tokens ++ rest)) (by simp)
        (by omega)
      have hd := Disjunction.read_tokens d hd.2 bound rest hand hor (by omega)
      simp [Disjunction.tokens, Disjunction.read, hc, hd]

end

/-- **An expression is read back from a text that spells it.** -/
theorem Disjunction.ofText?_of_spells {s : String} {d : Disjunction} (hd : d.Writable)
    (hs : Spells s d.tokens) : Disjunction.ofText? s = some d := by
  have hread := Disjunction.read_tokens d hd (4 * d.tokens.length + 4) [] (by simp) (by simp)
    (by omega)
  rw [List.append_nil] at hread
  rw [Disjunction.ofText?, Token.ofText?_of_spells hs, Option.bind_eq_bind, Option.bind_some,
    Disjunction.ofTokens?, hread]

end DocFilter
