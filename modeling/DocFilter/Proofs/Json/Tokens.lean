import DocFilter.Json.Reader
import DocFilter.Json.Writer
import DocFilter.Proofs.Text.Runs

/-!
# Strings and numerals of JSON

What the writer of JSON writes for a string or a numeral is read back, whatever follows it. A string
ends with its quote. A numeral has no such end: it is read back if no character follows that could
continue it. This holds of all literals of a numeral, and what is written is one of them.

## Main definitions

* `Numeral.Ends`: a text that does not continue a numeral.
* `Numeral.Spells`: the literals of a numeral.

## Main results

* `Json.readString_escape`: the characters of a string are read back.
* `Numeral.Spells.read_append`: a literal is read as its numeral.
* `Numeral.read_text`: a numeral is read back.
-/

namespace DocFilter

/-! ### Strings -/

theorem Hex.value?_lower : ∀ n < 0x20, value? (lower n) = some n := by
  decide

namespace Json

/-- **A character of a string is read back**, whether or not it is escaped. -/
theorem readString_escapeChar (c : Char) (rest : List Char) :
    readString (escapeChar c ++ rest) = (readString rest).map fun (s, rest) => (c :: s, rest) := by
  unfold escapeChar
  split
  case h_8 hquote hbackslash _ _ _ _ _ =>
    split
    · next hcontrol =>
      have hvalue := Hex.value?_lower c.toNat hcontrol
      have hhigh : isHighSurrogate c.toNat = false := by simp [isHighSurrogate]; omega
      have hlow : isLowSurrogate c.toNat = false := by simp [isLowSurrogate]; omega
      rw [Hex.lower] at hvalue ⊢
      simp only [List.cons_append, List.nil_append, readString, hvalue, hhigh, hlow,
        Bool.false_eq_true, if_false, Char.ofNat_toNat]
    · next hcontrol =>
      rw [List.singleton_append, readString, if_neg (not_or.2 ⟨hcontrol, hbackslash⟩)]
      all_goals grind
  all_goals simp [readString, unescape?]

/-- **The characters of a string are read back** up to the closing quote. -/
theorem readString_escape (cs rest : List Char) :
    readString (escape cs ++ '"' :: rest) = some (cs, rest) := by
  induction cs with
  | nil => simp [escape, readString]
  | cons c cs ih =>
    rw [escape, List.flatMap_cons, List.append_assoc, readString_escapeChar, ← escape, ih,
      Option.map_some]

end Json

/-! ### Digits -/

namespace Digit

theorem toList_text (ds : List Digit) : (text ds).toList = ds.map toChar :=
  String.toList_ofList

theorem toList_repr (n : Nat) : (Nat.repr n).toList = (ofNat n).map toChar := by
  rw [map_toChar_ofNat, Nat.toList_repr]

theorem run_map_toChar (ds : List Digit) {rest : List Char}
    (h : ∀ c ∈ rest.head?, ofChar? c = none) : run (ds.map toChar ++ rest) = (ds, rest) :=
  run_eq_iff.2 ⟨rfl, h⟩

/-- The digits of a number other than zero do not start with a zero. -/
theorem head?_toDigits_ne {n : Nat} (h : n ≠ 0) : (Nat.toDigits 10 n).head? ≠ some '0' := by
  induction n using Nat.strongRecOn with
  | ind n ih =>
    by_cases hlt : n < 10
    · rw [Nat.toDigits_of_lt_base hlt]
      have hdigit : ∀ n < 10, n ≠ 0 → [Nat.digitChar n].head? ≠ some '0' := by decide
      exact hdigit n hlt h
    · have hlead := ih (n / 10) (by omega) (by omega)
      have hne : Nat.toDigits 10 (n / 10) ≠ [] := Nat.toDigits_ne_nil
      obtain ⟨c, cs, hcs⟩ := List.exists_cons_of_ne_nil hne
      rw [Nat.toDigits_of_base_le (by decide) (Nat.le_of_not_lt hlt), hcs]
      rwa [hcs] at hlead

end Digit

/-! ### Numerals -/

/-- A text whose first character does not continue a numeral. -/
def Numeral.Ends (rest : List Char) : Prop :=
  ∀ c ∈ rest.head?, Digit.ofChar? c = none ∧ c ≠ '.' ∧ c ≠ 'e' ∧ c ≠ 'E'

namespace Exponent

/-- The text after the mark of an exponent, where a plus sign may be left out. -/
def SpellsBody (e : Exponent) (cs : List Char) : Prop :=
  cs = (if e.negative then '-' else '+') :: e.digits.map Digit.toChar ∨
    e.negative = false ∧ cs = e.digits.map Digit.toChar

/-- The text of an exponent that may be missing, with a mark of either case. -/
def OptionSpells : Option Exponent → List Char → Prop
  | none, cs => cs = []
  | some e, cs => ∃ mark body, (mark = 'e' ∨ mark = 'E') ∧ e.SpellsBody body ∧ cs = mark :: body

theorem toList_text (e : Exponent) :
    e.text.toList = 'e' :: (if e.negative then '-' else '+') :: e.digits.map Digit.toChar := by
  rw [text, String.toList_append, Digit.toList_text]
  split <;> rfl

theorem optionSpells_text (e : Option Exponent) : OptionSpells e ((e.map text).getD "").toList := by
  cases e with
  | none => rfl
  | some e => exact ⟨'e', _, .inl rfl, .inl rfl, e.toList_text⟩

theorem readBody_map_toChar (e : Exponent) {rest : List Char} (h : Numeral.Ends rest) :
    readBody e.negative (e.digits.map Digit.toChar ++ rest) = some (e, rest) := by
  have hrun : Digit.run (e.digits.map Digit.toChar ++ rest) = (e.digits, rest) :=
    Digit.run_map_toChar _ fun c hc => (h c hc).1
  rw [readBody, hrun]
  rfl

variable {e : Option Exponent} {spelled rest : List Char}

/-- Every spelling of an exponent is read. -/
theorem read?_of_optionSpells (hspelled : OptionSpells e spelled) (h : Numeral.Ends rest) :
    read? (spelled ++ rest) = some (e, rest) := by
  cases e with
  | none =>
    obtain rfl : spelled = [] := hspelled
    cases rest with
    | nil => rfl
    | cons c rest =>
      obtain ⟨-, -, hlower, hupper⟩ := h c rfl
      exact if_neg (not_or.2 ⟨hlower, hupper⟩)
  | some e =>
    obtain ⟨mark, body, hmark, hbody, rfl⟩ := hspelled
    have hread := readBody_map_toChar e h
    rcases hbody with rfl | ⟨hsign, rfl⟩
    · cases hnegative : e.negative with
      | false =>
        rw [hnegative] at hread
        simp [read?, hmark, hread]
      | true =>
        rw [hnegative] at hread
        simp [read?, hmark, hread]
    · -- the first digit shows that there is no sign
      have hdigit : e.lead.toChar ≠ '+' ∧ e.lead.toChar ≠ '-' := by
        generalize e.lead = d
        revert d
        decide
      rw [hsign] at hread
      rw [digits, List.map_cons, List.cons_append] at hread
      rw [digits, List.map_cons, List.cons_append, List.cons_append, read?, if_pos hmark, hread,
        Option.map_some]
      · exact fun _ heq => hdigit.1 (List.cons.inj heq).1
      · exact fun _ heq => hdigit.2 (List.cons.inj heq).1

/-- What follows the fraction of a literal continues neither its fraction nor its whole part. -/
theorem head?_of_optionSpells (hspelled : OptionSpells e spelled) (h : Numeral.Ends rest) :
    ∀ c ∈ (spelled ++ rest).head?, Digit.ofChar? c = none ∧ c ≠ '.' := by
  cases e with
  | none =>
    obtain rfl : spelled = [] := hspelled
    exact fun c hc => ⟨(h c hc).1, (h c hc).2.1⟩
  | some e =>
    obtain ⟨mark, body, rfl | rfl, -, rfl⟩ := hspelled
    · rintro c ⟨⟩
      decide
    · rintro c ⟨⟩
      decide

end Exponent

namespace Numeral

theorem readWhole_repr (n : Nat) {rest : List Char}
    (h : ∀ c ∈ rest.head?, Digit.ofChar? c = none) :
    readWhole ((Nat.repr n).toList ++ rest) = some (n, rest) := by
  -- a zero in front stands by itself, so the other numbers must not start with one
  by_cases hzero : n = 0
  · subst hzero
    rfl
  · obtain ⟨d, ds, hds⟩ := List.exists_cons_of_ne_nil (Digit.ofNat_ne_nil n)
    have hrun := Digit.run_map_toChar (Digit.ofNat n) h
    have hvalue := Digit.value_ofNat n
    have hhead : d.toChar ≠ '0' := by
      have hne := Digit.head?_toDigits_ne hzero
      rw [← Digit.map_toChar_ofNat, hds] at hne
      simpa using hne
    rw [Digit.toList_repr]
    rw [hds] at hrun hvalue ⊢
    rw [List.map_cons, List.cons_append] at hrun ⊢
    rw [readWhole, hrun]
    · simp [hvalue]
    · simpa using hhead

/-- The text of the fraction of a numeral, with its point. -/
def fractionText (fraction : List Digit) : List Char :=
  (if fraction.isEmpty then "" else "." ++ Digit.text fraction).toList

theorem fractionText_cons (d : Digit) (ds : List Digit) :
    fractionText (d :: ds) = '.' :: (d :: ds).map Digit.toChar := by
  rw [fractionText, if_neg (by simp), String.toList_append, Digit.toList_text]
  rfl

theorem readFraction_fractionText (fraction : List Digit) {rest : List Char}
    (h : ∀ c ∈ rest.head?, Digit.ofChar? c = none ∧ c ≠ '.') :
    readFraction (fractionText fraction ++ rest) = some (fraction, rest) := by
  cases fraction with
  | nil =>
    change readFraction rest = _
    unfold readFraction
    split
    · exact absurd rfl (h '.' rfl).2
    · rfl
  | cons d ds =>
    rw [fractionText_cons, List.cons_append, readFraction,
      Digit.run_map_toChar (d :: ds) fun c hc => (h c hc).1]

theorem head?_fractionText (fraction : List Digit) {rest : List Char}
    (h : ∀ c ∈ rest.head?, Digit.ofChar? c = none ∧ c ≠ '.') :
    ∀ c ∈ (fractionText fraction ++ rest).head?, Digit.ofChar? c = none := by
  cases fraction with
  | nil => exact fun c hc => (h c hc).1
  | cons d ds =>
    rw [fractionText_cons]
    rintro c ⟨⟩
    decide

theorem exists_head_repr (n : Nat) :
    ∃ c cs, (Nat.repr n).toList = c :: cs ∧ c.isDigit := by
  have hne : Nat.toDigits 10 n ≠ [] := Nat.toDigits_ne_nil
  obtain ⟨c, cs, hcs⟩ := List.exists_cons_of_ne_nil hne
  have hdigit : ∀ c ∈ Nat.toDigits 10 n, c.isDigit := fun c =>
    Nat.isDigit_of_mem_toDigits (by decide) (by decide)
  exact ⟨c, cs, Nat.toList_repr.trans hcs, hdigit c (hcs ▸ List.mem_cons_self)⟩

/-- The literals of a numeral. -/
def Spells (n : Numeral) (cs : List Char) : Prop :=
  ∃ exponent, Exponent.OptionSpells n.exponent exponent ∧
    cs = (if n.negative then ['-'] else []) ++
      ((Nat.repr n.whole).toList ++ (fractionText n.fraction ++ exponent))

/-- A literal starts with its sign or with a digit. -/
theorem Spells.exists_head {n : Numeral} {cs : List Char} (h : n.Spells cs) :
    ∃ c rest, cs = c :: rest ∧ (c = '-' ∨ c.isDigit) := by
  obtain ⟨exponent, -, rfl⟩ := h
  cases n.negative with
  | true => exact ⟨'-', _, rfl, .inl rfl⟩
  | false =>
    obtain ⟨c, cs, hcs, hdigit⟩ := exists_head_repr n.whole
    exact ⟨c, _, by rw [hcs]; rfl, .inr hdigit⟩

/-- **A literal is read as its numeral** if nothing follows that continues it. -/
theorem Spells.read_append {n : Numeral} {cs rest : List Char} (h : n.Spells cs)
    (hrest : Ends rest) : read (cs ++ rest) = some (n, rest) := by
  obtain ⟨exponent, hexponent, rfl⟩ := h
  have hhead := Exponent.head?_of_optionSpells hexponent hrest
  have hmagnitude : readMagnitude n.negative ((Nat.repr n.whole).toList ++
      (fractionText n.fraction ++ (exponent ++ rest))) = some (n, rest) := by
    simp only [readMagnitude, readWhole_repr n.whole (head?_fractionText n.fraction hhead),
      readFraction_fractionText n.fraction hhead, Exponent.read?_of_optionSpells hexponent hrest,
      Option.bind_eq_bind, Option.bind_some, Option.pure_def]
  simp only [List.append_assoc]
  cases hnegative : n.negative with
  | true =>
    rw [hnegative] at hmagnitude
    exact hmagnitude
  | false =>
    obtain ⟨c, cs, hcs, hdigit⟩ := exists_head_repr n.whole
    rw [hnegative, hcs] at hmagnitude
    rw [hcs]
    have hsign : c ≠ '-' := by
      rintro rfl
      cases hdigit
    exact (read.eq_2 _ fun _ heq => hsign (List.cons.inj heq).1).trans hmagnitude

/-- What is written for a numeral is one of its literals. -/
theorem spells_text (n : Numeral) : n.Spells n.text.toList := by
  refine ⟨_, Exponent.optionSpells_text n.exponent, ?_⟩
  simp only [text, String.toList_append, fractionText, List.append_assoc]
  split <;> rfl

/-- A numeral starts with its sign or with a digit. -/
theorem exists_head_text (n : Numeral) :
    ∃ c cs, n.text.toList = c :: cs ∧ (c = '-' ∨ c.isDigit) :=
  n.spells_text.exists_head

/-- **A numeral is read back** if nothing follows that continues it. -/
theorem read_text (n : Numeral) {rest : List Char} (h : Ends rest) :
    read (n.text.toList ++ rest) = some (n, rest) :=
  n.spells_text.read_append h

end Numeral

end DocFilter
