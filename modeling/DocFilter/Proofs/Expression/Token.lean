import DocFilter.Proofs.Sql.Literal
import Mathlib.Data.List.Forall2

/-!
# Tokens of filter expressions

The filter expressions of SQL/JSON as sequences of tokens. A string token holds the text behind its
escapes, and `$Bn` is one token. Tokens are read from the text behind the literal of SQL, in which
an expression stands.

Texts are put together from parts, and a part may end in the middle of a token: a name continues
over every letter that follows it. So a part is said to spell some tokens if it does so before every
text that begins apart from it.

## Main definitions

* `Token`, `Token.read`, `Token.readAll`: the tokens, and how they are read.
* `Spells`, `Delimits`: a part of a text, inside a literal, spells some tokens.

## Main results

* `Token.ofText?_of_spells`: the tokens of a whole text.
* `SpellsBefore.append`, `spells_intercalate`: texts that are put together.
-/

namespace DocFilter

/-- A token of a filter expression. -/
inductive Token where
  /-- A name without quotes, or a word of the language. -/
  | word (name : String)
  | number (n : Nat)
  | string (s : String)
  /-- The variable `$Bn`. -/
  | parameter (n : Nat)
  /-- The current item, `@`. -/
  | item
  | dot | star | comma | question | bang
  | openParen | closeParen | openBracket | closeBracket
  | and | or
  | eq | gt | gte | lt | lte
deriving DecidableEq, Repr

namespace Token

/-! ### Reading -/

/-- The token that a character is by itself. -/
def ofChar? : Char → Option Token
  | '@' => some item
  | '.' => some dot
  | '*' => some star
  | ',' => some comma
  | '?' => some question
  | '!' => some bang
  | '(' => some openParen
  | ')' => some closeParen
  | '[' => some openBracket
  | ']' => some closeBracket
  | _ => none

/-- A connective or comparison at the start of a text, and the text after it. -/
def readOperator : List Char → Option (Token × List Char)
  | '&' :: '&' :: cs => some (and, cs)
  | '|' :: '|' :: cs => some (or, cs)
  | '=' :: '=' :: cs => some (eq, cs)
  | '>' :: '=' :: cs => some (gte, cs)
  | '>' :: cs => some (gt, cs)
  | '<' :: '=' :: cs => some (lte, cs)
  | '<' :: cs => some (lt, cs)
  | _ => none

/-- The number that the digits at the start of a text write. -/
def readNumber (cs : List Char) : Nat :=
  Nat.ofDigitChars 10 (cs.takeWhile Char.isDigit) 0

/-- The variable behind a dollar sign. -/
def readParameter : List Char → Option (Token × List Char)
  | 'B' :: cs =>
    if cs.head?.any Char.isDigit then some (parameter (readNumber cs), cs.dropWhile Char.isDigit)
    else none
  | _ => none

/-- The token at the start of a text, and the text after it. -/
def read : List Char → Option (Token × List Char)
  | [] => none
  | c :: cs =>
    if c = '"' then
      (Json.readString cs).map fun (s, rest) => (string (String.ofList s), rest)
    else if c = '$' then readParameter cs
    else if c.isDigit then
      some (number (readNumber (c :: cs)), (c :: cs).dropWhile Char.isDigit)
    else if isWordChar c then
      some (word (String.ofList ((c :: cs).takeWhile isWordChar)), (c :: cs).dropWhile isWordChar)
    else
      match ofChar? c with
      | some t => some (t, cs)
      | none => readOperator (c :: cs)

/-- The tokens of a text, with blanks between them. Every token takes a character, so the length of
the text bounds their number. -/
def readAll : Nat → List Char → Option (List Token)
  | _, [] => some []
  | 0, _ => none
  | bound + 1, c :: cs =>
    if c = ' ' then readAll bound cs
    else do
      let (t, rest) ← read (c :: cs)
      return t :: (← readAll bound rest)

/-- The tokens of an expression that stands inside a literal of SQL. -/
def ofText? (s : String) : Option (List Token) :=
  readAll (undoubled s.toList).length (undoubled s.toList)

/-- The text has exactly these tokens. -/
def Lexes (cs : List Char) (ts : List Token) : Prop :=
  ∀ bound, cs.length ≤ bound → readAll bound cs = some ts

theorem lexes_nil : Lexes [] [] := by
  intro bound _
  rw [readAll]

theorem lexes_blank {cs : List Char} {ts : List Token} (h : Lexes cs ts) :
    Lexes (' ' :: cs) ts := by
  intro bound hbound
  obtain ⟨bound, rfl⟩ : ∃ n, bound = n + 1 := ⟨bound - 1, by simp at hbound; omega⟩
  rw [readAll, if_pos rfl]
  exact h bound (by simpa using hbound)

theorem lexes_token {c : Char} {cs : List Char} (rest : List Char) {t : Token} {ts : List Token}
    (hc : c ≠ ' ') (hread : read (c :: cs) = some (t, rest)) (hrest : rest.length ≤ cs.length)
    (h : Lexes rest ts) : Lexes (c :: cs) (t :: ts) := by
  intro bound hbound
  obtain ⟨bound, rfl⟩ : ∃ n, bound = n + 1 := ⟨bound - 1, by simp at hbound; omega⟩
  rw [List.length_cons] at hbound
  rw [readAll, if_neg hc, hread]
  simp [h bound (by omega)]

end Token

open Token

/-! ### Parts of a text -/

/-- Whether a text can follow a name, a number or a comparison without changing it. -/
def Apart : List Char → Prop
  | [] => True
  | c :: _ => isWordChar c = false ∧ c ≠ '='

/-- Inside a literal, the text `s` spells the tokens `ts` where a text of the kind `P` follows. -/
def SpellsBefore (P : List Char → Prop) (s : String) (ts : List Token) : Prop :=
  ∃ plain, s.toList = doubled plain ∧
    ∀ rest ts', P rest → Lexes rest ts' → Lexes (plain ++ rest) (ts ++ ts')

/-- The text `s` spells the tokens `ts` where a text follows that begins apart. -/
def Spells (s : String) (ts : List Token) : Prop :=
  SpellsBefore Apart s ts

/-- The text `s` spells the tokens `ts` whatever follows. -/
def Delimits (s : String) (ts : List Token) : Prop :=
  SpellsBefore (fun _ => True) s ts

/-- Whether a text begins apart from every name before it. -/
def StartsApart (s : String) : Prop :=
  ∃ c cs, s.toList = c :: cs ∧ isWordChar c = false ∧ c ≠ '='

theorem SpellsBefore.quotable {P : List Char → Prop} {s : String} {ts : List Token}
    (h : SpellsBefore P s ts) : Quotable s :=
  h.imp fun _ h => h.1

/-- The tokens of a whole text. -/
theorem Token.ofText?_of_spells {s : String} {ts : List Token} (h : Spells s ts) :
    Token.ofText? s = some ts := by
  obtain ⟨plain, hplain, hlexes⟩ := h
  have hall := hlexes [] [] trivial lexes_nil
  rw [List.append_nil, List.append_nil] at hall
  rw [Token.ofText?, hplain, undoubled_doubled]
  exact hall _ (Nat.le_refl _)

/-- Two parts spell the tokens of both, if the second may follow the first. -/
theorem SpellsBefore.append {P Q : List Char → Prop} {s s' : String} {ts ts' : List Token}
    (h : SpellsBefore P s ts) (h' : SpellsBefore Q s' ts')
    (hP : ∀ plain rest, s'.toList = doubled plain → Q rest → P (plain ++ rest)) :
    SpellsBefore Q (s ++ s') (ts ++ ts') := by
  obtain ⟨plain, hplain, hlexes⟩ := h
  obtain ⟨plain', hplain', hlexes'⟩ := h'
  refine ⟨plain ++ plain', ?_, fun rest us hrest hus => ?_⟩
  · rw [String.toList_append, hplain, hplain', doubled_append]
  · rw [List.append_assoc, List.append_assoc]
    exact hlexes _ _ (hP plain' rest hplain' hrest) (hlexes' rest us hrest hus)

theorem StartsApart.append {s s' : String} (h : StartsApart s) : StartsApart (s ++ s') := by
  obtain ⟨c, cs, hs, hc⟩ := h
  exact ⟨c, cs ++ s'.toList, by rw [String.toList_append, hs, List.cons_append], hc⟩

theorem StartsApart.apart {s : String} (h : StartsApart s) {plain : List Char}
    (hplain : s.toList = doubled plain) (rest : List Char) : Apart (plain ++ rest) := by
  obtain ⟨c, cs, hs, hc⟩ := h
  cases plain with
  | nil =>
    rw [hs] at hplain
    cases hplain
  | cons c' plain =>
    by_cases hquote : c' = '\''
    · subst hquote
      exact ⟨rfl, by decide⟩
    · rw [hs, doubled_cons, doubledChar_of_ne hquote] at hplain
      obtain rfl : c = c' := (List.cons.inj hplain).1
      exact hc

theorem Delimits.append {s s' : String} {ts ts' : List Token} (h : Delimits s ts)
    (h' : Delimits s' ts') : Delimits (s ++ s') (ts ++ ts') :=
  SpellsBefore.append h h' fun _ _ _ _ => trivial

theorem Delimits.append_spells {s s' : String} {ts ts' : List Token} (h : Delimits s ts)
    (h' : Spells s' ts') : Spells (s ++ s') (ts ++ ts') :=
  SpellsBefore.append h h' fun _ _ _ _ => trivial

theorem Spells.append {s s' : String} {ts ts' : List Token} (h : Spells s ts) (h' : Spells s' ts')
    (hs : StartsApart s') : Spells (s ++ s') (ts ++ ts') :=
  SpellsBefore.append h h' fun _ rest hplain _ => hs.apart hplain rest

theorem Spells.append_delimits {s s' : String} {ts ts' : List Token} (h : Spells s ts)
    (h' : Delimits s' ts') (hs : StartsApart s') : Delimits (s ++ s') (ts ++ ts') :=
  SpellsBefore.append h h' fun _ rest hplain _ => hs.apart hplain rest

theorem Delimits.spells {s : String} {ts : List Token} (h : Delimits s ts) : Spells s ts := by
  obtain ⟨plain, hplain, hlexes⟩ := h
  exact ⟨plain, hplain, fun rest ts' _ => hlexes rest ts' trivial⟩

/-! ### Names and numbers -/

theorem takeWhile_append_of_apart {p : Char → Bool} {cs rest : List Char} (hcs : ∀ c ∈ cs, p c)
    (hrest : rest.head?.all fun c => !p c) : (cs ++ rest).takeWhile p = cs := by
  rw [List.takeWhile_append_of_pos hcs]
  cases rest with
  | nil => simp
  | cons c rest => simp_all

theorem dropWhile_append_of_apart {p : Char → Bool} {cs rest : List Char} (hcs : ∀ c ∈ cs, p c)
    (hrest : rest.head?.all fun c => !p c) : (cs ++ rest).dropWhile p = rest := by
  rw [List.dropWhile_append_of_pos hcs]
  cases rest with
  | nil => simp
  | cons c rest => simp_all

theorem isWordChar_of_isDigit {c : Char} (h : c.isDigit = true) : isWordChar c = true := by
  simp [isWordChar, Char.isAlphanum, h]

theorem Apart.head?_isWordChar {rest : List Char} (h : Apart rest) :
    rest.head?.all fun c => !isWordChar c := by
  cases rest with
  | nil => rfl
  | cons c rest => simpa using h.1

theorem Apart.head?_isDigit {rest : List Char} (h : Apart rest) :
    rest.head?.all fun c => !c.isDigit := by
  cases rest with
  | nil => rfl
  | cons c rest =>
    have hword : ¬isWordChar c = true := by simp [h.1]
    simpa using fun hdigit => hword (isWordChar_of_isDigit hdigit)

/-- The characters with a meaning of their own are no part of a name. -/
theorem ne_of_isWordChar {c : Char} (h : isWordChar c = true) :
    c ≠ ' ' ∧ c ≠ '"' ∧ c ≠ '$' ∧ c ≠ '\'' := by
  refine ⟨?_, ?_, ?_, ?_⟩ <;> rintro rfl <;> exact absurd h (by decide)

/-- A name that needs no quotes is one token. -/
theorem spells_word {name : String} (h : needsQuoting name = false) : Spells name [word name] := by
  unfold needsQuoting at h
  cases hname : name.toList with
  | nil => simp [hname] at h
  | cons c cs =>
    simp only [hname, Bool.or_eq_false_iff, Bool.not_eq_false', List.all_eq_true] at h
    obtain ⟨hdigit, hword⟩ := h
    have hc := ne_of_isWordChar (hword c List.mem_cons_self)
    refine ⟨c :: cs, ?_, fun rest ts' hrest hts => ?_⟩
    · rw [hname]
      exact (doubled_eq_self fun hmem => (ne_of_isWordChar (hword _ hmem)).2.2.2 rfl).symm
    · have htake := takeWhile_append_of_apart hword hrest.head?_isWordChar
      have hdrop := dropWhile_append_of_apart hword hrest.head?_isWordChar
      rw [List.cons_append] at htake hdrop ⊢
      refine lexes_token rest hc.1 ?_ (by simp) hts
      rw [Token.read, if_neg hc.2.1, if_neg hc.2.2.1, if_neg (by simp [hdigit]),
        if_pos (hword c List.mem_cons_self), htake, hdrop, ← hname, String.ofList_toList]

/-- A number or variable ends where its digits do. -/
theorem readNumber_toDigits (n : Nat) {rest : List Char} (hrest : Apart rest) :
    readNumber (Nat.toDigits 10 n ++ rest) = n ∧
      (Nat.toDigits 10 n ++ rest).dropWhile Char.isDigit = rest := by
  have hdigits : ∀ c ∈ Nat.toDigits 10 n, c.isDigit = true := fun c =>
    Nat.isDigit_of_mem_toDigits (by decide) (by decide)
  refine ⟨?_, dropWhile_append_of_apart hdigits hrest.head?_isDigit⟩
  rw [readNumber, takeWhile_append_of_apart hdigits hrest.head?_isDigit,
    Nat.ofDigitChars_ten_toDigits]

theorem apostrophe_not_mem_toDigits (n : Nat) : '\'' ∉ Nat.toDigits 10 n := fun h =>
  absurd (Nat.isDigit_of_mem_toDigits (by decide) (by decide) h) (by decide)

/-- A number is one token. -/
theorem spells_number (n : Nat) : Spells (Nat.repr n) [number n] := by
  refine ⟨Nat.toDigits 10 n, ?_, fun rest ts' hrest hts => ?_⟩
  · rw [Nat.toList_repr, doubled_eq_self (apostrophe_not_mem_toDigits n)]
  · obtain ⟨hnumber, hdrop⟩ := readNumber_toDigits n hrest
    obtain ⟨c, cs, hcs⟩ := List.exists_cons_of_ne_nil (Nat.toDigits_ne_nil (n := n) (b := 10))
    have hdigit : c.isDigit = true :=
      Nat.isDigit_of_mem_toDigits (by decide) (by decide) (hcs ▸ List.mem_cons_self)
    have hc := ne_of_isWordChar (isWordChar_of_isDigit hdigit)
    rw [hcs, List.cons_append] at hnumber hdrop ⊢
    refine lexes_token rest hc.1 ?_ (by simp) hts
    rw [Token.read, if_neg hc.2.1, if_neg hc.2.2.1, if_pos hdigit, hnumber, hdrop]

/-- A variable is one token. -/
theorem spells_parameter (n : Nat) : Spells ("$" ++ ("B" ++ Nat.repr n)) [parameter n] := by
  refine ⟨'$' :: 'B' :: Nat.toDigits 10 n, ?_, fun rest ts' hrest hts => ?_⟩
  · rw [doubled_eq_self (by simp [apostrophe_not_mem_toDigits])]
    simp
  · obtain ⟨hnumber, hdrop⟩ := readNumber_toDigits n hrest
    have hhead : (Nat.toDigits 10 n ++ rest).head?.any Char.isDigit = true := by
      obtain ⟨c, cs, hcs⟩ := List.exists_cons_of_ne_nil (Nat.toDigits_ne_nil (n := n) (b := 10))
      have hdigit : c.isDigit = true :=
        Nat.isDigit_of_mem_toDigits (by decide) (by decide) (hcs ▸ List.mem_cons_self)
      simpa [hcs] using hdigit
    rw [List.cons_append, List.cons_append]
    refine lexes_token rest (by decide) ?_ (by simp; omega) hts
    rw [Token.read, if_neg (by decide), if_pos rfl, readParameter, if_pos hhead, hnumber, hdrop]

/-! ### Strings -/

/-- A quoted name is one token. -/
theorem delimits_quoteName (name : String) : Delimits (quoteName name) [string name] := by
  refine ⟨'"' :: (nameChars name.toList ++ ['"']), ?_, fun rest ts' _ hts => ?_⟩
  · simp [quoteName, doubledChar, doubled_nameChars]
  · rw [List.cons_append, List.append_assoc, List.singleton_append]
    refine lexes_token rest (by decide) ?_ (by simp; omega) hts
    rw [Token.read, if_pos rfl, readString_nameChars]
    simp

/-! ### Symbols -/

theorem read_of_ofChar? {c : Char} {t : Token} (h : ofChar? c = some t) (cs : List Char) :
    Token.read (c :: cs) = some (t, cs) := by
  unfold ofChar? at h
  split at h <;> cases h <;> rfl

/-- The tokens of a text of single characters and blanks. -/
def symbols? : List Char → Option (List Token)
  | [] => some []
  | c :: cs => if c = ' ' then symbols? cs else do return (← ofChar? c) :: (← symbols? cs)

theorem lexes_symbols {rest : List Char} {ts' : List Token} (hrest : Lexes rest ts') :
    (cs : List Char) → (ts : List Token) → symbols? cs = some ts → Lexes (cs ++ rest) (ts ++ ts')
  | [], ts, h => Option.some.inj h ▸ hrest
  | c :: cs, ts, h => by
      rw [symbols?] at h
      split at h
      · next hc => exact hc ▸ lexes_blank (lexes_symbols hrest cs ts h)
      · next hc =>
        obtain ⟨t, ht, h⟩ := Option.bind_eq_some_iff.1 h
        obtain ⟨us, hus, h⟩ := Option.bind_eq_some_iff.1 h
        obtain rfl := Option.some.inj h
        have hcs := lexes_symbols hrest cs us hus
        exact lexes_token _ hc (read_of_ofChar? ht _) (Nat.le_refl _) hcs

theorem apostrophe_not_mem_of_symbols? :
    (cs : List Char) → (ts : List Token) → symbols? cs = some ts → '\'' ∉ cs
  | [], _, _ => List.not_mem_nil
  | c :: cs, ts, h => by
      rw [symbols?] at h
      split at h
      · next hc =>
        have hcs := apostrophe_not_mem_of_symbols? cs ts h
        simp [hc, hcs]
      · next hc =>
        obtain ⟨t, ht, h⟩ := Option.bind_eq_some_iff.1 h
        obtain ⟨us, hus, -⟩ := Option.bind_eq_some_iff.1 h
        have hcs := apostrophe_not_mem_of_symbols? cs us hus
        have hne : '\'' ≠ c := by
          rintro rfl
          cases ht
        simp [hne, hcs]

/-- A text of single characters and blanks. -/
theorem delimits_symbols {s : String} {ts : List Token} (h : symbols? s.toList = some ts) :
    Delimits s ts :=
  ⟨s.toList, (doubled_eq_self (apostrophe_not_mem_of_symbols? _ _ h)).symm,
    fun _ _ _ hrest => lexes_symbols hrest _ _ h⟩

/-- A connective or comparison between blanks. -/
theorem delimits_operator {s : String} {t : Token} (c : Char) (cs : List Char)
    (hs : s.toList = ' ' :: c :: (cs ++ [' '])) (hc : c ≠ ' ') (hquote : '\'' ∉ s.toList)
    (hread : ∀ rest, Token.read (c :: (cs ++ ' ' :: rest)) = some (t, ' ' :: rest)) :
    Delimits s [t] := by
  refine ⟨s.toList, (doubled_eq_self hquote).symm, fun rest ts' _ hrest => ?_⟩
  rw [hs, List.cons_append, List.cons_append, List.append_assoc, List.singleton_append]
  exact lexes_blank (lexes_token (' ' :: rest) hc (hread rest) (by simp) (lexes_blank hrest))

/-! ### Joined texts -/

/-- Texts with a separator between them. -/
theorem spells_intercalate {separator : String} {us : List Token}
    (hseparator : Delimits separator us) (hapart : StartsApart separator)
    {texts : List String} {tss : List (List Token)} (h : List.Forall₂ Spells texts tss) :
    Spells (String.intercalate separator texts) (List.intercalate us tss) := by
  induction h with
  | nil => exact (delimits_symbols rfl).spells
  | @cons text ts texts tss htext h ih =>
    cases h with
    | nil =>
      rw [String.intercalate_singleton, List.intercalate_singleton]
      exact htext
    | cons htext' h =>
      rw [String.intercalate_cons_cons, List.intercalate_cons_cons]
      exact (htext.append_delimits hseparator hapart).append_spells ih

end DocFilter
