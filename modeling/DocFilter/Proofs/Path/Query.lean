import DocFilter.Proofs.Expression.Rendition

/-!
# Paths are read back from queries

Behind the literal of SQL, a path is a base and then one item for each step: a name, a JSON string
or a star, each behind a dot, or a subscript between brackets. A test may add a method to it. An
item ends where its own characters end, so a text falls into items in one way only, and a method is
never taken for a name.

## Main definitions

* `Path.Item`: the texts of items, with the steps that they stand for.
* `Path.readItem`: the item at the start of a text.
* `Step.item`: the text that a step is written with.

## Main results

* `Path.readItem_append`: an item is read whatever item or method follows.
* `Path.eq_of_flatten_eq`: a text has one division into items.
* `Path.query_reads_back`: a path that was read is read back from its query, and the predicates of
  two tests are equal only if their paths and modifiers are.
-/

namespace DocFilter

/-! ### Strings -/

namespace Json

/-- A character before a string that is read, with some text behind it. -/
theorem map_readString_append {c : Char} {cs s rest tail : List Char}
    (ih : ∀ {s rest}, readString cs = some (s, rest) →
      readString (cs ++ tail) = some (s, rest ++ tail))
    (h : (readString cs).map (fun (s, rest) => (c :: s, rest)) = some (s, rest)) :
    (readString (cs ++ tail)).map (fun (s, rest) => (c :: s, rest)) = some (s, rest ++ tail) := by
  obtain ⟨⟨s', rest'⟩, hread, heq⟩ := Option.map_eq_some_iff.1 h
  obtain ⟨rfl, rfl⟩ := Prod.mk.inj heq
  rw [ih hread, Option.map_some]

/-- What follows the closing quote of a string does not change the string. -/
theorem readString_append {cs s rest : List Char} (tail : List Char)
    (h : readString cs = some (s, rest)) :
    readString (cs ++ tail) = some (s, rest ++ tail) := by
  fun_induction readString cs generalizing s rest with
  | case2 =>
    obtain ⟨rfl, rfl⟩ := Prod.mk.inj (Option.some.inj h)
    simp [readString]
  | case5 a b c d unit hunit hhigh e f g i cs low hlow hpair ih =>
    simpa [readString, hunit, hhigh, hlow, hpair] using map_readString_append ih h
  | case9 a b c d cs unit hunit hhigh hlow ih =>
    simpa [readString, hunit, hhigh, hlow] using map_readString_append ih h
  | case10 c cs hne ch hch ih =>
    -- an escape of one letter is none of four digits, however many characters follow
    have hu : c ≠ 'u' := by
      rintro rfl
      cases hch
    simpa [readString, hu, hch] using map_readString_append ih h
  | case13 c cs hquote _ _ hprintable ih =>
    have hread := map_readString_append ih h
    rw [List.cons_append, readString, if_neg hprintable]
    all_goals grind
  | _ => cases h

end Json

namespace Path

/-! ### Items -/

/-- The texts of items, with the steps that they stand for. A name needs no quotes, and a string is
any JSON string. -/
inductive Item : List Char → Step → Prop
  | identifier {name : String} (h : needsQuoting name = false) :
      Item ('.' :: name.toList) (.field name false)
  | string {body name : List Char} (h : Json.readString (body ++ ['"']) = some (name, [])) :
      Item ('.' :: '"' :: (body ++ ['"'])) (.field (String.ofList name) true)
  | star : Item ['.', '*'] .wildcard
  | subscript {inside : List Char} {s : Subscript} (h : Subscript.ofChars? inside = some s) :
      Item ('[' :: (inside ++ [']'])) (.array s)

/-- The step of the item at the start of a text, and the text after it. -/
def readItem : List Char → Option (Step × List Char)
  | '.' :: '*' :: rest => some (.wildcard, rest)
  | '.' :: '"' :: cs =>
    (Json.readString cs).map fun (name, rest) => (.field (String.ofList name) true, rest)
  | '.' :: cs =>
    some (.field (String.ofList (cs.takeWhile isWordChar)) false, cs.dropWhile isWordChar)
  | '[' :: cs =>
    (Subscript.ofChars? (cs.takeWhile (· != ']'))).map fun s =>
      (.array s, (cs.dropWhile (· != ']')).tail)
  | _ => none

/-- Whether a text can follow an item: it is empty or begins as another item or a method does. -/
def Follows (rest : List Char) : Prop :=
  ∀ c ∈ rest.head?, c = '.' ∨ c = '['

/-- A name without quotes is read up to the first character that is none of a word. -/
theorem readItem_identifier {name : String} (h : needsQuoting name = false) {rest : List Char}
    (hrest : ∀ c ∈ rest.head?, isWordChar c = false) :
    readItem ('.' :: (name.toList ++ rest)) = some (.field name false, rest) := by
  obtain ⟨hne, hword⟩ := isWordChar_of_needsQuoting h
  have hhead (c : Char) (cs : List Char) (heq : name.toList ++ rest = c :: cs) : isWordChar c := by
    obtain ⟨c', cs', hname⟩ := List.exists_cons_of_ne_nil hne
    rw [hname, List.cons_append, List.cons.injEq] at heq
    exact hword c (by simp [hname, heq.1])
  obtain ⟨htake, hdrop⟩ := takeWhile_dropWhile_eq_iff.2 ⟨rfl, hword, hrest⟩
  rw [readItem, htake, hdrop, String.ofList_toList]
  · exact fun cs heq => absurd (hhead _ _ heq) (by decide)
  · exact fun cs heq => absurd (hhead _ _ heq) (by decide)

/-- **An item is read whatever may follow it.** -/
theorem readItem_append {cs rest : List Char} {s : Step} (h : Item cs s) (hrest : Follows rest) :
    readItem (cs ++ rest) = some (s, rest) := by
  cases h with
  | identifier h =>
    refine readItem_identifier h fun c hc => ?_
    rcases hrest c hc with rfl | rfl <;> rfl
  | string h =>
    rw [List.cons_append, List.cons_append, readItem, Json.readString_append rest h]
    rfl
  | star => rfl
  | @subscript inside s h =>
    have hbracket : ∀ c ∈ inside, (c != ']') = true := by
      rintro c hc
      rw [bne_iff_ne]
      rintro rfl
      exact (Subscript.ofChars?_eq_some_iff.1 h).not_bracket.2 hc
    obtain ⟨htake, hdrop⟩ := takeWhile_dropWhile_eq_iff.2
      ⟨rfl, hbracket, fun c (hc : c ∈ (']' :: rest).head?) => by
        rw [← Option.some.inj hc]; rfl⟩
    rw [List.cons_append, List.append_assoc, List.singleton_append, readItem, htake, hdrop, h]
    rfl

/-! ### Texts of items -/

/-- The call of the method of a modifier, if there is one. -/
def methodText : Option Modifier → List Char
  | none => []
  | some m => '.' :: (m.name.toList ++ ['(', ')'])

theorem follows_methodText (m : Option Modifier) : Follows (methodText m) := by
  cases m with
  | none => exact fun c hc => nomatch hc
  | some m => exact fun c hc => Or.inl (Option.some.inj hc).symm

theorem methodText_injective {m m' : Option Modifier} (h : methodText m = methodText m') :
    m = m' := by
  cases m with
  | none =>
    cases m' with
    | none => rfl
    | some m' => cases h
  | some m =>
    cases m' with
    | none => cases h
    | some m' =>
      have hname : m.name = m'.name := by
        rw [methodText, methodText, List.cons.injEq, List.append_left_inj] at h
        exact String.toList_injective h.2
      rw [← Subject.method?_name m, ← Subject.method?_name m', hname]

/-- An item begins as a text that may follow an item. -/
theorem Item.exists_head {cs : List Char} {s : Step} (h : Item cs s) :
    ∃ c cs', cs = c :: cs' ∧ (c = '.' ∨ c = '[') := by
  cases h with
  | subscript h => exact ⟨_, _, rfl, Or.inr rfl⟩
  | _ => exact ⟨_, _, rfl, Or.inl rfl⟩

theorem follows_flatten {items : List (List Char)} {steps : List Step}
    (h : List.Forall₂ Item items steps) {rest : List Char} (hrest : Follows rest) :
    Follows (items.flatten ++ rest) := by
  cases h with
  | nil => exact hrest
  | cons hitem _ =>
    obtain ⟨c, cs, rfl, hc⟩ := hitem.exists_head
    intro c' hc'
    rwa [← Option.some.inj hc']

/-- The call of a method is no item with other items behind it. -/
theorem methodText_ne {cs rest : List Char} {s : Step} (h : Item cs s) (hrest : Follows rest)
    (m : Option Modifier) : methodText m ≠ cs ++ rest := by
  intro heq
  have hread := readItem_append h hrest
  rw [← heq] at hread
  cases m with
  | none => cases hread
  | some m =>
    -- the name is read as an item, and no parenthesis follows an item
    have hname : readItem (methodText (some m)) = some (.field m.name false, ['(', ')']) :=
      readItem_identifier m.needsQuoting_name fun c hc => by rw [← Option.some.inj hc]; rfl
    rw [hname, Option.some.injEq, Prod.mk.injEq] at hread
    rcases hrest '(' (by rw [← hread.2]; rfl) with hc | hc <;> exact absurd hc (by decide)

/-- **A text has one division into items and a method.** -/
theorem eq_of_flatten_eq {items items' : List (List Char)} {steps steps' : List Step}
    {m m' : Option Modifier} (h : List.Forall₂ Item items steps)
    (h' : List.Forall₂ Item items' steps')
    (heq : items.flatten ++ methodText m = items'.flatten ++ methodText m') :
    items = items' ∧ steps = steps' ∧ m = m' := by
  induction h generalizing items' steps' with
  | nil =>
    cases h' with
    | nil => exact ⟨rfl, rfl, methodText_injective heq⟩
    | cons hitem' hitems' =>
      rw [List.flatten_cons, List.append_assoc] at heq
      exact absurd heq (methodText_ne hitem' (follows_flatten hitems' (follows_methodText m')) m)
  | @cons item s items steps hitem hitems ih =>
    have hfollows := follows_flatten hitems (follows_methodText m)
    rw [List.flatten_cons, List.append_assoc] at heq
    cases h' with
    | nil => exact absurd heq.symm (methodText_ne hitem hfollows m')
    | @cons item' s' items' steps' hitem' hitems' =>
      have hfollows' := follows_flatten hitems' (follows_methodText m')
      rw [List.flatten_cons, List.append_assoc] at heq
      -- both items are read from the same text
      have hread := readItem_append hitem hfollows
      rw [heq, readItem_append hitem' hfollows', Option.some.injEq, Prod.mk.injEq] at hread
      obtain ⟨rfl, hrest⟩ := hread
      rw [hrest, List.append_left_inj] at heq
      obtain ⟨rfl, rfl, rfl⟩ := ih hitems' hrest.symm
      exact ⟨by rw [heq], rfl, rfl⟩

end Path

/-! ### The items of a path -/

/-- The item that a step is written with, behind the literal of SQL. -/
def Step.item : Step → List Char
  | field name true => '.' :: '"' :: (nameChars name.toList ++ ['"'])
  | field name false => '.' :: name.toList
  | wildcard => ['.', '*']
  | array subscript => '[' :: (subscript.inside.toList ++ [']'])

/-- A step is written with its item, through the literal of SQL. -/
theorem Step.toList_sqlText {s : Step} (h : s.WellFormed) (hrange : s.InRange) :
    (s.dot ++ s.sqlText).toList = doubled s.item := by
  cases s with
  | field name quoted =>
    cases quoted with
    | true => simp [dot, isArray, sqlText, quoteName, item, doubled_nameChars, doubledChar]
    | false =>
      have hword := (Path.isWordChar_of_needsQuoting (h.2.2.2 rfl)).2
      have hname := doubled_eq_self fun hmem => (ne_of_isWordChar (hword _ hmem)).2.2.2 rfl
      simp [dot, isArray, sqlText, item, hname, doubledChar]
  | wildcard => rfl
  | array subscript =>
    have hinside := doubled_eq_self fun hmem =>
      absurd ((Subscript.written_inside h hrange).mem hmem) (by decide)
    simp [dot, isArray, sqlText, item, Subscript.text_eq, hinside, doubledChar]

namespace Path

/-- The item of a step stands for the step. -/
theorem item_item {s : Step} (h : s.WellFormed) (hrange : s.InRange) : Item s.item s := by
  cases s with
  | field name quoted =>
    cases quoted with
    | true =>
      have hitem := Item.string (readString_nameChars [] name.toList)
      rwa [String.ofList_toList] at hitem
    | false => exact .identifier (h.2.2.2 rfl)
  | wildcard => exact .star
  | array subscript =>
    exact .subscript (Subscript.ofChars?_eq_some_iff.2 (Subscript.written_inside h hrange))

/-- The items of a path. -/
def items (p : Path) : List (List Char) :=
  p.steps.map Step.item

variable {p p' : Path}

theorem forall₂_items (h : p.WellFormed) (hrange : p.InRange) :
    List.Forall₂ Item p.items p.steps := by
  rw [items, List.forall₂_map_left_iff, List.forall₂_same]
  exact fun s hs => item_item (h.steps s hs) (hrange s hs)

theorem toList_sqlSteps (h : p.WellFormed) (hrange : p.InRange) :
    (sqlSteps p.steps).toList = doubled p.items.flatten := by
  have hsteps (s : Step) (hs : s ∈ p.steps) := s.toList_sqlText (h.steps s hs) (hrange s hs)
  rw [sqlSteps, items]
  generalize p.steps = steps at hsteps
  induction steps with
  | nil => rfl
  | cons s steps ih =>
    obtain ⟨hs, hsteps⟩ := List.forall_mem_cons.1 hsteps
    rw [List.map_cons, String.join_cons, String.toList_append, hs, ih hsteps, List.map_cons,
      List.flatten_cons, doubled_append]

/-- The base of a path is no half of a doubled apostrophe. -/
theorem undoubled_cons_doubled (base : Char) {cs : List Char} (h : Follows cs) :
    undoubled (base :: doubled cs) = base :: cs := by
  cases cs with
  | nil => simp [undoubled]
  | cons c cs =>
    have hc : c ≠ '\'' := by rcases h c rfl with rfl | rfl <;> decide
    have hdoubled := undoubled_doubled (c :: cs)
    rw [doubled_cons, doubledChar_of_ne hc, List.singleton_append] at hdoubled ⊢
    rw [undoubled, hdoubled]
    rintro cs' - heq
    exact hc (List.cons.inj heq).1

/-- A query behind the literal of SQL, with the method of a modifier behind it. -/
theorem undoubled_query_append (h : p.WellFormed) (hrange : p.InRange) (base : Char)
    (m : Option Modifier) :
    undoubled ((p.query base).toList ++ methodText m) =
      base :: (p.items.flatten ++ methodText m) := by
  have hmethod : doubled (methodText m) = methodText m := by
    cases m with
    | none => rfl
    | some m => cases m <;> rfl
  have hquery : (p.query base).toList ++ methodText m =
      base :: doubled (p.items.flatten ++ methodText m) := by
    rw [query, String.toList_append, toList_sqlSteps h hrange, doubled_append, hmethod,
      String.toList_singleton, List.singleton_append, List.cons_append]
  rw [hquery, undoubled_cons_doubled base
    (follows_flatten (forall₂_items h hrange) (follows_methodText m))]

theorem toList_predicate (t : Test) :
    (t.predicate p).toList = (p.query '@').toList ++ methodText t.modifier := by
  rw [Test.predicate, String.toList_append]
  cases t.modifier with
  | none => rfl
  | some m => simp [methodText, Modifier.itemMethod]

/-- The predicates of two tests are equal only if their paths and modifiers are. -/
theorem predicate_eq_iff (h : p.WellFormed) (hrange : p.InRange) (h' : p'.WellFormed)
    (hrange' : p'.InRange) (t t' : Test) :
    t.predicate p = t'.predicate p' ↔ p = p' ∧ t.modifier = t'.modifier := by
  constructor
  · intro heq
    have htext := congrArg (fun s => undoubled s.toList) heq
    simp only [toList_predicate, undoubled_query_append h hrange,
      undoubled_query_append h' hrange', List.cons.injEq, true_and] at htext
    obtain ⟨-, hsteps, hmodifier⟩ := eq_of_flatten_eq (forall₂_items h hrange)
      (forall₂_items h' hrange') htext
    exact ⟨congrArg mk hsteps, hmodifier⟩
  · rintro ⟨rfl, hmodifier⟩
    rw [Test.predicate, Test.predicate, hmodifier]

/-- **A path that was read is read back from its query.** Behind the literal of SQL, the query is
the base and then items that stand for the steps of the path, and nothing else can be read from it.
So two tests have the same predicate only if they have the same path and the same modifier: no name
is written as another path or as a method. -/
theorem query_reads_back :
    (∀ source p, ofText source = .ok p → ∀ base, ∃ items,
        undoubled (p.query base).toList = base :: items.flatten ∧
          List.Forall₂ Item items p.steps ∧
          ∀ base' items' steps', undoubled (p.query base).toList = base' :: items'.flatten →
            List.Forall₂ Item items' steps' →
              base' = base ∧ items' = items ∧ steps' = p.steps) ∧
      ∀ source p source' p', ofText source = .ok p → ofText source' = .ok p' →
        ∀ t t' : Test, t.predicate p = t'.predicate p' ↔ p = p' ∧ t.modifier = t'.modifier := by
  constructor
  · intro source p hread base
    obtain ⟨h, hrange⟩ := wellFormed_of_ofText hread
    have hquery := undoubled_query_append h hrange base none
    simp only [methodText, List.append_nil] at hquery
    refine ⟨p.items, hquery, forall₂_items h hrange, ?_⟩
    intro base' items' steps' hquery' hitems'
    obtain ⟨hbase, hflatten⟩ := List.cons.inj (hquery'.symm.trans hquery)
    have htexts : items'.flatten ++ methodText none = p.items.flatten ++ methodText none := by
      rw [hflatten]
    obtain ⟨hitems, hsteps, -⟩ := eq_of_flatten_eq hitems' (forall₂_items h hrange) htexts
    exact ⟨hbase, hitems, hsteps⟩
  · intro source p source' p' hread hread'
    obtain ⟨h, hrange⟩ := wellFormed_of_ofText hread
    obtain ⟨h', hrange'⟩ := wellFormed_of_ofText hread'
    exact predicate_eq_iff h hrange h' hrange'

-- an apostrophe is doubled, a quote and a backslash are escaped
example :
    (ofText "\x60it's \"a\\b\"\x60[0, 2 to 3].*").toOption.map (query '@') =
      some "@.\"it''s \\\"a\\\\b\\\"\"[0,2 to 3].*" := by
  decide +kernel

end Path

end DocFilter
