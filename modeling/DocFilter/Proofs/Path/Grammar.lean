import DocFilter.Path.Reader
import DocFilter.Proofs.Path.Scan
import DocFilter.Proofs.Reading.Tests
import Mathlib.Data.List.Chain

/-!
# The grammar of paths

A path is spelled in pieces, one for each step: a plain name, a name between backquotes, or a
subscript between brackets. A name behind another piece has a dot before it. A subscript has none,
and never follows another one. The reader accepts exactly the texts that are put together so, and
such a text can be taken apart in one way only.

## Main definitions

* `Path.Piece`: the pieces, with the step that each one spells.
* `Path.Reading`: a text taken apart into pieces.

## Main results

* `Path.readStep_text`, `Path.exists_piece_of_readStep`: the reader of one step.
* `Path.readSteps_text`, `Path.exists_pieces_of_readSteps`: the reader of all steps.
* `Path.ofText_eq_ok_iff_reading`: a text is read as a path exactly if it has a reading, which is
  the only one.
-/

namespace DocFilter.Path

/-! ### Pieces and readings -/

/-- A step as it is spelled. A subscript comes with its text between the brackets. -/
inductive Piece where
  | plain (name : String)
  | quoted (name : String)
  | bracketed (inside : String) (subscript : Subscript)

namespace Piece

/-- The characters of a piece, with its quotes or brackets. -/
def text : Piece → List Char
  | plain name => name.toList
  | quoted name => '\x60' :: (name.toList ++ ['\x60'])
  | bracketed inside _ => '[' :: (inside.toList ++ [']'])

/-- Whether a piece can stand in a path: a name is not empty and has no mark that ends it, a plain
name is not the mark of a root, and the text between brackets is that of the subscript. -/
def Valid : Piece → Prop
  | plain name =>
    name ≠ "" ∧ name ≠ "$" ∧ name ≠ "@" ∧
      ∀ c ∈ name.toList, c ≠ '.' ∧ c ≠ '[' ∧ c ≠ ']' ∧ c ≠ '\x60'
  | quoted name => name ≠ "" ∧ '\x60' ∉ name.toList
  | bracketed inside subscript =>
    '[' ∉ inside.toList ∧ ']' ∉ inside.toList ∧ Subscript.ofText? inside = some subscript

/-- The step that a piece spells. A star is the wildcard, with quotes or without. -/
def step : Piece → Step
  | plain name => if name = "*" then .wildcard else .field name (needsQuoting name)
  | quoted name => if name = "*" then .wildcard else .field name true
  | bracketed _ subscript => .array subscript

/-- Whether a piece is a subscript. -/
def isBracketed : Piece → Bool
  | bracketed _ _ => true
  | _ => false

/-- Whether one piece may stand right before another: not both are subscripts. -/
def Apart (p q : Piece) : Prop :=
  ¬(p.isBracketed ∧ q.isBracketed)

/-- The dot before a piece behind another one. -/
def dot (p : Piece) : List Char :=
  if p.isBracketed then [] else ['.']

/-- How a piece is spelled. -/
def spelling : Piece → Spelling
  | plain _ => .plain
  | quoted _ => .quoted
  | bracketed _ _ => .bracketed

theorem isArray_step (p : Piece) : p.step.isArray = p.isBracketed := by
  cases p with
  | plain name => rw [step]; split <;> rfl
  | quoted name => rw [step]; split <;> rfl
  | bracketed inside subscript => rfl

theorem spelling_eq_bracketed_iff {p : Piece} : p.spelling = .bracketed ↔ p.isBracketed := by
  cases p <;> simp [spelling, isBracketed]

/-- A piece is determined by its text and its spelling. -/
theorem eq_of_text_eq {p q : Piece} (hp : p.Valid) (hq : q.Valid)
    (hspelling : p.spelling = q.spelling) (htext : p.text = q.text) : p = q := by
  cases p with
  | plain name =>
    cases q with
    | plain name' => exact congrArg plain (String.toList_injective htext)
    | _ => cases hspelling
  | quoted name =>
    cases q with
    | quoted name' =>
      exact congrArg quoted (String.toList_injective (by simpa [text] using htext))
    | _ => cases hspelling
  | bracketed inside subscript =>
    cases q with
    | bracketed inside' subscript' =>
      obtain rfl : inside = inside' := String.toList_injective (by simpa [text] using htext)
      obtain rfl : subscript = subscript' := Option.some.inj (hp.2.2.symm.trans hq.2.2)
      rfl
    | _ => cases hspelling

end Piece

/-- The text of the pieces behind the first one. -/
def tailText (ps : List Piece) : List Char :=
  ps.flatMap fun p => p.dot ++ p.text

/-- A text taken apart into pieces, of which no two neighbours are subscripts. -/
structure Reading where
  first : Piece
  rest : List Piece
  valid : ∀ p ∈ first :: rest, p.Valid
  apart : (first :: rest).IsChain Piece.Apart

namespace Reading

/-- The text that has been taken apart. -/
def text (r : Reading) : String :=
  String.ofList (r.first.text ++ tailText r.rest)

/-- The path that a reading spells. -/
def path (r : Reading) : Path :=
  ⟨(r.first :: r.rest).map Piece.step⟩

end Reading

/-! ### The reader of one step -/

theorem isPlainChar_iff {c : Char} :
    isPlainChar c ↔ c ≠ '.' ∧ c ≠ '[' ∧ c ≠ ']' ∧ c ≠ '\x60' := by
  simp [isPlainChar, and_assoc]

theorem readArrayStep_eq_ok_iff {cs rest : List Char} {s : Step} :
    readArrayStep cs = .ok (s, rest) ↔
      ∃ inside subscript, cs = inside.toList ++ ']' :: rest ∧
        (Piece.bracketed inside subscript).Valid ∧ s = .array subscript := by
  unfold readArrayStep
  dsimp only
  rw [drop_length_takeWhile]
  constructor
  · intro h
    split at h
    · cases h
    · cases h
    · next c rest' hne hdrop =>
      obtain ⟨hcs, hinside, hhead⟩ := takeWhile_dropWhile_eq_iff.1 ⟨rfl, hdrop⟩
      split at h
      · next subscript hsubscript =>
        obtain ⟨rfl, rfl⟩ := Prod.mk.inj (Except.ok.inj h)
        -- the run ends before a bracket, and an opening one has been excluded
        obtain rfl : c = ']' := by
          have hc := hhead c rfl
          have hopen : c ≠ '[' := hne
          simpa [hopen] using hc
        refine ⟨String.ofList _, subscript, by rwa [String.toList_ofList], ?_, rfl⟩
        refine ⟨?_, ?_, by rwa [Subscript.ofText?, String.toList_ofList]⟩ <;>
          rw [String.toList_ofList] <;> exact fun hmem => absurd (hinside _ hmem) (by decide)
      · cases h
  · rintro ⟨inside, subscript, rfl, ⟨hopen, hclose, hsubscript⟩, rfl⟩
    have hinner : ∀ c ∈ inside.toList, (c != '[' && c != ']') = true := by
      intro c hc
      simp only [Bool.and_eq_true, bne_iff_ne]
      exact ⟨fun h => hopen (h ▸ hc), fun h => hclose (h ▸ hc)⟩
    obtain ⟨htake, hdrop⟩ := takeWhile_dropWhile_eq_iff.2
      ⟨rfl, hinner, show ∀ c ∈ (']' :: rest).head?, (c != '[' && c != ']') = false by simp⟩
    rw [Subscript.ofText?] at hsubscript
    rw [htake, hdrop, hsubscript]
    rfl

theorem quotedStep_eq_ok_iff {name : String} {s : Step} :
    quotedStep name = .ok s ↔ name ≠ "" ∧ s = (Piece.quoted name).step := by
  unfold quotedStep
  by_cases hempty : name = ""
  · exact ⟨fun h => by simp [hempty] at h, fun h => absurd hempty h.1⟩
  rw [if_neg hempty, Piece.step]
  split_ifs <;> exact ⟨fun h => ⟨hempty, (Except.ok.inj h).symm⟩,
    fun h => congrArg Except.ok h.2.symm⟩

theorem readQuotedStep_eq_ok_iff {cs rest : List Char} {s : Step} :
    readQuotedStep cs = .ok (s, rest) ↔
      ∃ name, cs = name.toList ++ '\x60' :: rest ∧ (Piece.quoted name).Valid ∧
        s = (Piece.quoted name).step := by
  unfold readQuotedStep
  dsimp only
  rw [drop_length_takeWhile]
  constructor
  · intro h
    split at h
    · cases h
    · next c rest' hdrop =>
      obtain ⟨hcs, hname, hhead⟩ := takeWhile_dropWhile_eq_iff.1 ⟨rfl, hdrop⟩
      obtain ⟨s', hs', heq⟩ := map_eq_ok.1 h
      obtain ⟨rfl, rfl⟩ := Prod.mk.inj heq
      obtain rfl : c = '\x60' := by simpa using hhead c rfl
      obtain ⟨hne, rfl⟩ := quotedStep_eq_ok_iff.1 hs'
      refine ⟨String.ofList _, by rwa [String.toList_ofList], ⟨hne, ?_⟩, rfl⟩
      rw [String.toList_ofList]
      exact fun hmem => absurd (hname _ hmem) (by decide)
  · rintro ⟨name, rfl, ⟨hne, hname⟩, rfl⟩
    have hinner : ∀ c ∈ name.toList, (c != '\x60') = true := by
      intro c hc
      rw [bne_iff_ne]
      exact fun h => hname (h ▸ hc)
    obtain ⟨htake, hdrop⟩ := takeWhile_dropWhile_eq_iff.2
      ⟨rfl, hinner, show ∀ c ∈ ('\x60' :: rest).head?, (c != '\x60') = false by simp⟩
    rw [htake, hdrop, String.ofList_toList, quotedStep_eq_ok_iff.2 ⟨hne, rfl⟩]
    rfl

theorem plainStep_eq_ok_iff {name : String} {s : Step} :
    plainStep name = .ok s ↔
      name ≠ "" ∧ name ≠ "$" ∧ name ≠ "@" ∧ s = (Piece.plain name).step := by
  unfold plainStep
  by_cases hempty : name = ""
  · exact ⟨fun h => by simp [hempty] at h, fun h => absurd hempty h.1⟩
  by_cases hmarker : name = "$" ∨ name = "@"
  · rw [if_neg hempty, if_pos hmarker]
    exact ⟨nofun, fun h => (hmarker.elim h.2.1 h.2.2.1).elim⟩
  obtain ⟨hroot, hat⟩ := not_or.1 hmarker
  rw [if_neg hempty, if_neg hmarker, Piece.step]
  split_ifs <;> exact ⟨fun h => ⟨hempty, hroot, hat, (Except.ok.inj h).symm⟩,
    fun h => congrArg Except.ok h.2.2.2.symm⟩

theorem readPlainStep_eq_ok_iff {cs rest : List Char} {s : Step} :
    readPlainStep cs = .ok (s, rest) ↔
      ∃ name, cs = name.toList ++ rest ∧ (Piece.plain name).Valid ∧
        (∀ c ∈ rest.head?, isPlainChar c = false) ∧ s = (Piece.plain name).step := by
  unfold readPlainStep
  dsimp only
  rw [drop_length_takeWhile]
  constructor
  · intro h
    obtain ⟨s', hs', heq⟩ := map_eq_ok.1 h
    obtain ⟨rfl, hdrop⟩ := Prod.mk.inj heq
    obtain ⟨hcs, hname, hhead⟩ := takeWhile_dropWhile_eq_iff.1 ⟨rfl, hdrop⟩
    obtain ⟨hne, hroot, hat, rfl⟩ := plainStep_eq_ok_iff.1 hs'
    refine ⟨String.ofList _, by rwa [String.toList_ofList], ⟨hne, hroot, hat, ?_⟩, hhead, rfl⟩
    rw [String.toList_ofList]
    exact fun c hc => isPlainChar_iff.1 (hname c hc)
  · rintro ⟨name, rfl, ⟨hne, hroot, hat, hname⟩, hrest, rfl⟩
    obtain ⟨htake, hdrop⟩ := takeWhile_dropWhile_eq_iff.2
      ⟨rfl, fun c hc => isPlainChar_iff.2 (hname c hc), hrest⟩
    rw [htake, hdrop, String.ofList_toList, plainStep_eq_ok_iff.2 ⟨hne, hroot, hat, rfl⟩]
    rfl

/-- A plain name starts with none of the marks. -/
theorem exists_head_plain {name : String} (h : (Piece.plain name).Valid) :
    ∃ c cs, name.toList = c :: cs ∧ isPlainChar c := by
  obtain ⟨hne, -, -, hname⟩ := h
  obtain ⟨c, cs, hcs⟩ := List.exists_cons_of_ne_nil (mt String.toList_eq_nil_iff.1 hne)
  exact ⟨c, cs, hcs, isPlainChar_iff.2 (hname c (hcs ▸ List.mem_cons_self))⟩

/-- A valid piece is read from its text where a mark or the end follows. -/
theorem readStep_text {p : Piece} {rest : List Char} (h : p.Valid)
    (hrest : ∀ c ∈ rest.head?, isPlainChar c = false) :
    readStep (p.text ++ rest) = .ok (p.step, p.spelling, rest) := by
  cases p with
  | plain name =>
    obtain ⟨c, cs, hcs, hc⟩ := exists_head_plain h
    have hread := readPlainStep_eq_ok_iff.2 ⟨name, rfl, h, hrest, rfl⟩
    rw [hcs, List.cons_append] at hread
    rw [Piece.text, hcs, List.cons_append, readStep, hread]
    · rfl
    · exact List.cons_ne_nil _ _
    all_goals
      rintro cs heq
      obtain ⟨rfl, -⟩ := List.cons.inj heq
      exact absurd hc (by decide)
  | quoted name =>
    rw [Piece.text, List.cons_append, List.append_assoc, List.singleton_append, readStep,
      readQuotedStep_eq_ok_iff.2 ⟨name, rfl, h, rfl⟩]
    rfl
  | bracketed inside subscript =>
    rw [Piece.text, List.cons_append, List.append_assoc, List.singleton_append, readStep,
      readArrayStep_eq_ok_iff.2 ⟨inside, subscript, rfl, h, rfl⟩]
    rfl

theorem exists_piece_of_readStep {cs rest : List Char} {s : Step} {spelling : Spelling}
    (h : readStep cs = .ok (s, spelling, rest)) :
    ∃ p : Piece, p.Valid ∧ cs = p.text ++ rest ∧ p.step = s ∧ p.spelling = spelling := by
  unfold readStep at h
  split at h
  · cases h
  · cases h
  · obtain ⟨⟨s', rest'⟩, hstep, heq⟩ := map_eq_ok.1 h
    obtain ⟨rfl, rfl, rfl⟩ : s' = s ∧ .bracketed = spelling ∧ rest' = rest := by simpa using heq
    obtain ⟨inside, subscript, rfl, hvalid, rfl⟩ := readArrayStep_eq_ok_iff.1 hstep
    exact ⟨.bracketed inside subscript, hvalid, by simp [Piece.text], rfl, rfl⟩
  · obtain ⟨⟨s', rest'⟩, hstep, heq⟩ := map_eq_ok.1 h
    obtain ⟨rfl, rfl, rfl⟩ : s' = s ∧ .quoted = spelling ∧ rest' = rest := by simpa using heq
    obtain ⟨name, rfl, hvalid, rfl⟩ := readQuotedStep_eq_ok_iff.1 hstep
    exact ⟨.quoted name, hvalid, by simp [Piece.text], rfl, rfl⟩
  · obtain ⟨⟨s', rest'⟩, hstep, heq⟩ := map_eq_ok.1 h
    obtain ⟨rfl, rfl, rfl⟩ : s' = s ∧ .plain = spelling ∧ rest' = rest := by simpa using heq
    obtain ⟨name, rfl, hvalid, -, rfl⟩ := readPlainStep_eq_ok_iff.1 hstep
    exact ⟨.plain name, hvalid, rfl, rfl, rfl⟩

/-- A bracket stands at the start of a subscript and of no other piece. -/
theorem head?_text_iff {p : Piece} (h : p.Valid) (rest : List Char) :
    (p.text ++ rest).head? = some '[' ↔ p.isBracketed := by
  cases p with
  | plain name =>
    obtain ⟨c, cs, hcs, hc⟩ := exists_head_plain h
    rw [Piece.text, hcs]
    have hopen : c ≠ '[' := (isPlainChar_iff.1 hc).2.1
    simp [Piece.isBracketed, hopen]
  | quoted name => simp [Piece.text, Piece.isBracketed]
  | bracketed inside subscript => simp [Piece.text, Piece.isBracketed]

/-! ### From one step to the next -/

/-- The next step stands behind a dot, which no array step does, or is an array step right behind
one of another kind. -/
theorem nextStep_eq_some_iff {spelling : Spelling} {cs rest : List Char} :
    nextStep spelling cs = .ok (some rest) ↔
      (cs = '.' :: rest ∧ rest.head? ≠ some '[') ∨
        (cs = rest ∧ rest.head? = some '[' ∧ spelling ≠ .bracketed) := by
  constructor
  · intro h
    unfold nextStep at h
    split at h
    · cases h
    · cases h
    · next tail hne =>
      obtain rfl := Option.some.inj (Except.ok.inj h)
      refine .inl ⟨rfl, fun hhead => ?_⟩
      obtain ⟨cs, rfl⟩ := List.head?_eq_some_iff.1 hhead
      exact hne cs rfl
    · split at h
      · cases h
      · next hspelling =>
        obtain rfl := Option.some.inj (Except.ok.inj h)
        exact .inr ⟨rfl, rfl, hspelling⟩
    · cases h
    · cases h
  · rintro (⟨rfl, hhead⟩ | ⟨rfl, hhead, hspelling⟩)
    · rw [nextStep]
      rintro cs rfl
      exact hhead rfl
    · obtain ⟨cs, rfl⟩ := List.head?_eq_some_iff.1 hhead
      rw [nextStep, if_neg hspelling]

theorem nextStep_eq_none_iff {spelling : Spelling} {cs : List Char} :
    nextStep spelling cs = .ok none ↔ cs = [] := by
  constructor
  · intro h
    unfold nextStep at h
    split at h
    · rfl
    · cases h
    · cases h
    · split at h <;> cases h
    · cases h
    · cases h
  · rintro rfl
    rfl

theorem readSteps_succ_eq_ok_iff {bound : Nat} {cs : List Char} {steps : List Step} :
    readSteps (bound + 1) cs = .ok steps ↔
      ∃ s spelling rest, readStep cs = .ok (s, spelling, rest) ∧
        ((rest = [] ∧ steps = [s]) ∨
          ∃ rest' steps', nextStep spelling rest = .ok (some rest') ∧
            readSteps bound rest' = .ok steps' ∧ steps = s :: steps') := by
  rw [readSteps, bind_eq_ok]
  constructor
  · rintro ⟨⟨s, spelling, rest⟩, hstep, h⟩
    obtain ⟨next, hnext, h⟩ := bind_eq_ok.1 h
    refine ⟨s, spelling, rest, hstep, ?_⟩
    cases next with
    | none => exact .inl ⟨nextStep_eq_none_iff.1 hnext, (Except.ok.inj h).symm⟩
    | some rest' =>
      obtain ⟨steps', hsteps, heq⟩ := bind_eq_ok.1 h
      exact .inr ⟨rest', steps', hnext, hsteps, (Except.ok.inj heq).symm⟩
  · rintro ⟨s, spelling, rest, hstep, hnext⟩
    refine ⟨(s, spelling, rest), hstep, bind_eq_ok.2 ?_⟩
    obtain ⟨rfl, rfl⟩ | ⟨rest', steps', hsome, hsteps, rfl⟩ := hnext
    · exact ⟨none, rfl, rfl⟩
    · exact ⟨some rest', hsome, bind_eq_ok.2 ⟨steps', hsteps, rfl⟩⟩

/-! ### The texts of readings are read -/

/-- The piece behind another one starts with a dot or a bracket. -/
theorem isPlainChar_head_tailText (ps : List Piece) :
    ∀ c ∈ (tailText ps).head?, isPlainChar c = false := by
  cases ps with
  | nil => exact nofun
  | cons p ps => cases p <;> simp [tailText, Piece.dot, Piece.isBracketed, Piece.text, isPlainChar]

/-- Behind a piece, the next one is found unless both are subscripts. -/
theorem nextStep_tailText {p q : Piece} (ps : List Piece) (hq : q.Valid)
    (hapart : p.Apart q) :
    nextStep p.spelling (tailText (q :: ps)) = .ok (some (q.text ++ tailText ps)) := by
  have hhead := head?_text_iff hq (tailText ps)
  rw [nextStep_eq_some_iff, tailText, List.flatMap_cons, ← tailText, List.append_assoc, Piece.dot]
  by_cases hbracketed : q.isBracketed
  · refine .inr ⟨by rw [if_pos hbracketed, List.nil_append], hhead.2 hbracketed, ?_⟩
    rw [Ne, Piece.spelling_eq_bracketed_iff]
    exact fun h => hapart ⟨h, hbracketed⟩
  · exact .inl ⟨by rw [if_neg hbracketed, List.singleton_append], fun h => hbracketed (hhead.1 h)⟩

theorem length_text_pos {p : Piece} (h : p.Valid) : 0 < p.text.length := by
  cases p with
  | plain name =>
    obtain ⟨c, cs, hcs, -⟩ := exists_head_plain h
    simp [Piece.text, hcs]
  | quoted name => exact Nat.succ_pos _
  | bracketed inside subscript => exact Nat.succ_pos _

/-- Every piece behind the first takes a character at least. -/
theorem length_le_length_tailText {ps : List Piece} (h : ∀ p ∈ ps, p.Valid) :
    ps.length ≤ (tailText ps).length := by
  induction ps with
  | nil => exact Nat.zero_le _
  | cons p ps ih =>
    obtain ⟨hp, hps⟩ := List.forall_mem_cons.1 h
    have htext := length_text_pos hp
    have htail := ih hps
    simp only [tailText, List.flatMap_cons, List.length_append, List.length_cons] at htail ⊢
    omega

theorem readSteps_text {p : Piece} {ps : List Piece} {bound : Nat} (h : ∀ q ∈ p :: ps, q.Valid)
    (hapart : (p :: ps).IsChain Piece.Apart)
    (hbound : ps.length < bound) :
    readSteps bound (p.text ++ tailText ps) = .ok ((p :: ps).map Piece.step) := by
  obtain ⟨bound, rfl⟩ : ∃ n, bound = n + 1 := ⟨bound - 1, by omega⟩
  have hstep := readStep_text (h p List.mem_cons_self) (isPlainChar_head_tailText ps)
  induction ps generalizing p bound with
  | nil => exact readSteps_succ_eq_ok_iff.2 ⟨_, _, _, hstep, .inl ⟨rfl, rfl⟩⟩
  | cons q ps ih =>
    obtain ⟨hp, hps⟩ := List.forall_mem_cons.1 h
    obtain ⟨hpq, hchain⟩ := List.isChain_cons_cons.1 hapart
    have hq := hps q List.mem_cons_self
    rw [List.length_cons] at hbound
    obtain ⟨bound, rfl⟩ : ∃ n, bound = n + 1 := ⟨bound - 1, by omega⟩
    have htail := ih hps hchain bound (by omega)
      (readStep_text hq (isPlainChar_head_tailText ps))
    exact readSteps_succ_eq_ok_iff.2
      ⟨_, _, _, hstep, .inr ⟨_, _, nextStep_tailText ps hq hpq, htail, rfl⟩⟩

/-! ### What is read has a reading -/

/-- The steps of a text are those of its pieces. -/
theorem exists_pieces_of_readSteps {bound : Nat} {cs : List Char} {steps : List Step}
    (h : readSteps bound cs = .ok steps) :
    ∃ p ps, cs = p.text ++ tailText ps ∧ (∀ q ∈ p :: ps, q.Valid) ∧
      (p :: ps).IsChain Piece.Apart ∧
      steps = (p :: ps).map Piece.step := by
  induction bound generalizing cs steps with
  | zero => cases h
  | succ bound ih =>
    obtain ⟨s, spelling, rest, hstep, hnext⟩ := readSteps_succ_eq_ok_iff.1 h
    obtain ⟨p, hp, rfl, rfl, rfl⟩ := exists_piece_of_readStep hstep
    obtain ⟨rfl, rfl⟩ | ⟨rest', steps', hsome, hsteps, rfl⟩ := hnext
    · exact ⟨p, [], rfl, List.forall_mem_singleton.2 hp, .singleton _, rfl⟩
    · obtain ⟨q, ps, rfl, hps, hchain, rfl⟩ := ih hsteps
      have hq := hps q List.mem_cons_self
      have hhead := head?_text_iff hq (tailText ps)
      refine ⟨p, q :: ps, ?_, List.forall_mem_cons.2 ⟨hp, hps⟩, ?_, rfl⟩
      · rw [tailText, List.flatMap_cons, ← tailText, List.append_assoc, Piece.dot]
        obtain ⟨rfl, hne⟩ | ⟨rfl, hbracket, -⟩ := nextStep_eq_some_iff.1 hsome
        · rw [if_neg fun h => hne (hhead.2 h), List.singleton_append]
        · rw [if_pos (hhead.1 hbracket), List.nil_append]
      · refine List.isChain_cons_cons.2 ⟨?_, hchain⟩
        rintro ⟨hbracketed, hbracketed'⟩
        -- a subscript behind a dot has no bracket, and behind another one is not read
        obtain ⟨-, hne⟩ | ⟨-, -, hne⟩ := nextStep_eq_some_iff.1 hsome
        · exact hne (hhead.2 hbracketed')
        · exact hne (Piece.spelling_eq_bracketed_iff.2 hbracketed)

/-! ### Whole texts -/

theorem ofChars_eq_ok_iff {cs : List Char} {p : Path} :
    ofChars cs = .ok p ↔ readSteps cs.length cs = .ok p.steps := by
  unfold ofChars
  split_ifs with hempty
  · subst hempty
    exact ⟨nofun, nofun⟩
  · rw [map_eq_ok]
    constructor
    · rintro ⟨steps, hsteps, rfl⟩
      exact hsteps
    · exact fun h => ⟨p.steps, h, rfl⟩

theorem exists_fault_of_ofText {s : String} {e : Error} (h : ofText s = .error e) :
    ∃ fault, e = .invalidPath s fault := by
  unfold ofText at h
  cases hchars : ofChars s.toList with
  | ok p => rw [hchars] at h; cases h
  | error fault => rw [hchars] at h; exact ⟨fault, (Except.error.inj h).symm⟩

theorem ofText_eq_ok_iff {s : String} {p : Path} :
    ofText s = .ok p ↔ ∃ r : Reading, r.text = s ∧ r.path = p := by
  rw [ofText, mapError_eq_ok, ofChars_eq_ok_iff]
  constructor
  · intro h
    obtain ⟨q, ps, hs, hvalid, hapart, hsteps⟩ := exists_pieces_of_readSteps h
    refine ⟨⟨q, ps, hvalid, hapart⟩, ?_, ?_⟩
    · rw [Reading.text, ← hs, String.ofList_toList]
    · rw [Reading.path, ← hsteps]
  · rintro ⟨r, rfl, rfl⟩
    rw [Reading.text, String.toList_ofList]
    refine readSteps_text r.valid r.apart ?_
    obtain ⟨hfirst, hrest⟩ := List.forall_mem_cons.1 r.valid
    have htext := length_text_pos hfirst
    have htail := length_le_length_tailText hrest
    rw [List.length_append]
    omega

/-! ### Readings are unique -/

/-- The first of some pieces is determined by their text. -/
theorem Piece.eq_of_append_eq {p q : Piece} {rest rest' : List Char} (hp : p.Valid) (hq : q.Valid)
    (hrest : ∀ c ∈ rest.head?, isPlainChar c = false)
    (hrest' : ∀ c ∈ rest'.head?, isPlainChar c = false) (h : p.text ++ rest = q.text ++ rest') :
    p = q ∧ rest = rest' := by
  have hread := readStep_text hp hrest
  rw [h, readStep_text hq hrest'] at hread
  obtain ⟨-, hspelling, rfl⟩ : q.step = p.step ∧ q.spelling = p.spelling ∧ rest' = rest := by
    simpa using hread
  exact ⟨eq_of_text_eq hp hq hspelling.symm (List.append_cancel_right h), rfl⟩

theorem eq_nil_of_tailText_eq_nil {ps : List Piece} (h : ∀ p ∈ ps, p.Valid)
    (htail : tailText ps = []) : ps = [] := by
  have hlength := length_le_length_tailText h
  rw [htail] at hlength
  exact List.eq_nil_of_length_eq_zero (Nat.le_zero.1 hlength)

theorem first_eq_of_text_append_eq {p q : Piece} {ps qs : List Piece}
    (hp : ∀ p' ∈ p :: ps, p'.Valid) (hq : ∀ q' ∈ q :: qs, q'.Valid)
    (h : p.text ++ tailText ps = q.text ++ tailText qs) : p = q ∧ tailText ps = tailText qs :=
  Piece.eq_of_append_eq (hp p List.mem_cons_self) (hq q List.mem_cons_self)
    (isPlainChar_head_tailText ps) (isPlainChar_head_tailText qs) h

/-- Pieces in a row are determined by their text. -/
theorem eq_of_text_append_eq {p q : Piece} {ps qs : List Piece} (hp : ∀ p' ∈ p :: ps, p'.Valid)
    (hq : ∀ q' ∈ q :: qs, q'.Valid) (hpapart : (p :: ps).IsChain Piece.Apart)
    (hqapart : (q :: qs).IsChain Piece.Apart)
    (h : p.text ++ tailText ps = q.text ++ tailText qs) : p :: ps = q :: qs := by
  induction ps generalizing p q qs with
  | nil =>
    obtain ⟨rfl, htail⟩ := first_eq_of_text_append_eq hp hq h
    rw [eq_nil_of_tailText_eq_nil (List.forall_mem_cons.1 hq).2 htail.symm]
  | cons p' ps ih =>
    obtain ⟨rfl, htail⟩ := first_eq_of_text_append_eq hp hq h
    obtain ⟨-, hps⟩ := List.forall_mem_cons.1 hp
    obtain ⟨-, hqs⟩ := List.forall_mem_cons.1 hq
    cases qs with
    | nil => exact absurd (eq_nil_of_tailText_eq_nil hps htail) (List.cons_ne_nil _ _)
    | cons q' qs =>
      obtain ⟨hapart, hpchain⟩ := List.isChain_cons_cons.1 hpapart
      obtain ⟨hapart', hqchain⟩ := List.isChain_cons_cons.1 hqapart
      -- behind the same piece, the reader finds the same next one
      have hnext := nextStep_tailText ps (hps p' List.mem_cons_self) hapart
      rw [htail, nextStep_tailText qs (hqs q' List.mem_cons_self) hapart'] at hnext
      rw [ih hps hqs hpchain hqchain (Option.some.inj (Except.ok.inj hnext)).symm]

theorem Reading.text_injective : Function.Injective Reading.text := by
  rintro ⟨p, ps, hp, hpapart⟩ ⟨q, qs, hq, hqapart⟩ h
  obtain ⟨rfl, rfl⟩ := List.cons.inj
    (eq_of_text_append_eq hp hq hpapart hqapart (String.ofList_injective h))
  rfl

/-- **A text is a path exactly if it has a reading**, and the path is the one that the reading
spells. No text has two readings, and a text without one is refused with an error that carries
it. -/
theorem ofText_eq_ok_iff_reading :
    (∀ s p, ofText s = .ok p ↔ ∃ r : Reading, r.text = s ∧ r.path = p) ∧
      (∀ r r' : Reading, r.text = r'.text → r = r') ∧
      ∀ s, (∃ fault, ofText s = .error (.invalidPath s fault)) ↔ ¬∃ r : Reading, r.text = s := by
  refine ⟨fun s p => ofText_eq_ok_iff, Reading.text_injective, fun s => ?_⟩
  constructor
  · rintro ⟨fault, hfault⟩ ⟨r, hr⟩
    have hok := ofText_eq_ok_iff.2 ⟨r, hr, rfl⟩
    rw [hfault] at hok
    cases hok
  · intro hnone
    cases h : ofText s with
    | ok p =>
      obtain ⟨r, hr, -⟩ := ofText_eq_ok_iff.1 h
      exact absurd ⟨r, hr⟩ hnone
    | error e =>
      obtain ⟨fault, rfl⟩ := exists_fault_of_ofText h
      exact ⟨fault, rfl⟩

end DocFilter.Path
