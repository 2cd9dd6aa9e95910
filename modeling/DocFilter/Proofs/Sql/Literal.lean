import DocFilter.Json.Reader
import DocFilter.Path.Rendition

/-!
# Texts inside literals

A literal of SQL stands between apostrophes, and an apostrophe inside it is doubled. A quoted name
in a path is a JSON string that stands inside such a literal, so it is written through both layers.

## Main definitions

* `doubled`, `undoubled`: a text with its apostrophes doubled, and the text behind it.
* `Quotable`: whether a text may stand inside a literal.
* `nameChar`: a character of a quoted name as JSON writes it.

## Main results

* `undoubled_doubled`: a literal gives its text back.
* `readString_nameChars`: a quoted name gives the name back.
-/

namespace DocFilter

/-! ### Apostrophes -/

/-- A character as it stands inside a literal of SQL. -/
def doubledChar (c : Char) : List Char :=
  if c = '\'' then ['\'', '\''] else [c]

/-- A text as it stands inside a literal of SQL. -/
def doubled (cs : List Char) : List Char :=
  cs.flatMap doubledChar

/-- The text that a literal of SQL stands for. -/
def undoubled : List Char → List Char
  | [] => []
  | '\'' :: '\'' :: cs => '\'' :: undoubled cs
  | c :: cs => c :: undoubled cs

@[simp] theorem doubled_nil : doubled [] = [] := rfl

@[simp] theorem doubled_cons (c : Char) (cs : List Char) :
    doubled (c :: cs) = doubledChar c ++ doubled cs := rfl

@[simp] theorem doubled_append (cs cs' : List Char) :
    doubled (cs ++ cs') = doubled cs ++ doubled cs' :=
  List.flatMap_append

theorem doubled_flatMap {β : Type} (f : β → List Char) (bs : List β) :
    doubled (bs.flatMap f) = bs.flatMap fun b => doubled (f b) :=
  List.flatMap_assoc

theorem doubledChar_of_ne {c : Char} (h : c ≠ '\'') : doubledChar c = [c] :=
  if_neg h

/-- A text without apostrophes stands in a literal as it is. -/
theorem doubled_eq_self : {cs : List Char} → '\'' ∉ cs → doubled cs = cs
  | [], _ => rfl
  | c :: cs, h => by
      rw [List.mem_cons, not_or] at h
      rw [doubled_cons, doubledChar_of_ne (Ne.symm h.1), doubled_eq_self h.2, List.singleton_append]

/-- **A literal gives its text back.** -/
@[simp] theorem undoubled_doubled : (cs : List Char) → undoubled (doubled cs) = cs
  | [] => rfl
  | c :: cs => by
      rw [doubled_cons]
      by_cases hc : c = '\''
      · rw [hc, doubledChar, if_pos rfl]
        exact congrArg ('\'' :: ·) (undoubled_doubled cs)
      · rw [doubledChar_of_ne hc, List.singleton_append, undoubled, undoubled_doubled cs]
        rintro cs' rfl
        exact absurd rfl hc

/-- Whether a text may stand inside a literal of SQL: its apostrophes are doubled. -/
def Quotable (s : String) : Prop :=
  ∃ plain, s.toList = doubled plain

theorem quotable_of_not_mem {s : String} (h : '\'' ∉ s.toList) : Quotable s :=
  ⟨s.toList, (doubled_eq_self h).symm⟩

theorem Quotable.append {s s' : String} (h : Quotable s) (h' : Quotable s') :
    Quotable (s ++ s') := by
  obtain ⟨plain, hplain⟩ := h
  obtain ⟨plain', hplain'⟩ := h'
  exact ⟨plain ++ plain', by rw [String.toList_append, hplain, hplain', doubled_append]⟩

/-! ### Hexadecimal escapes -/

namespace Hex

theorem ofChar?_upperDigit : ∀ n < 16, ofChar? (upperDigit n) = some n := by
  decide

theorem upperDigit_ne_apostrophe : ∀ n < 16, upperDigit n ≠ '\'' := by
  decide

/-- Four digits give a number of sixteen bits back. -/
theorem value?_upper {n : Nat} (h : n < 0x10000) : value? (upper n) = some n := by
  have hdigit (k : Nat) : ofChar? (upperDigit (k % 16)) = some (k % 16) :=
    ofChar?_upperDigit _ (Nat.mod_lt _ (by decide))
  simp only [value?, upper, List.foldl_cons, List.foldl_nil, hdigit, Option.bind_eq_bind,
    Option.bind_some, Option.pure_def, Option.some.injEq]
  omega

theorem apostrophe_not_mem_upper (n : Nat) : '\'' ∉ upper n := by
  have hdigit (k : Nat) : '\'' ≠ upperDigit (k % 16) :=
    (upperDigit_ne_apostrophe _ (Nat.mod_lt _ (by decide))).symm
  simp [upper, hdigit]

end Hex

/-! ### Quoted names -/

/-- A character of a quoted name as JSON writes it. -/
def nameChar (c : Char) : List Char :=
  if c = '\'' then [c] else escapeNameChar c

/-- A quoted name as JSON writes it, without its quotes. -/
def nameChars (name : List Char) : List Char :=
  name.flatMap nameChar

theorem apostrophe_not_mem_escapeNameChar {c : Char} (hc : c ≠ '\'') :
    '\'' ∉ escapeNameChar c := by
  unfold escapeNameChar
  split
  case h_3 => exact absurd rfl hc
  case h_9 =>
    split
    · simp [Hex.apostrophe_not_mem_upper]
    · exact fun h => hc (List.mem_singleton.1 h).symm
  all_goals decide

/-- A quoted name is written through both layers. -/
theorem doubled_nameChar (c : Char) : doubled (nameChar c) = escapeNameChar c := by
  unfold nameChar
  split
  · next h => rw [h]; rfl
  · next h => exact doubled_eq_self (apostrophe_not_mem_escapeNameChar h)

theorem doubled_nameChars (name : List Char) :
    doubled (nameChars name) = name.flatMap escapeNameChar := by
  rw [nameChars, doubled_flatMap]
  exact congrArg (List.flatMap · name) (funext doubled_nameChar)

theorem toNat_lt_of_isControl {c : Char} (h : isControl c = true) : c.toNat < 0xA0 := by
  simp only [isControl, Bool.or_eq_true, Bool.and_eq_true, decide_eq_true_eq] at h
  omega

/-- Reading a string undoes the writing of one character. -/
theorem readString_nameChar (c : Char) (cs : List Char) :
    Json.readString (nameChar c ++ cs) =
      (Json.readString cs).map fun (s, rest) => (c :: s, rest) := by
  unfold nameChar
  split
  · next h => subst h; simp [Json.readString]
  · next hc =>
    unfold escapeNameChar
    split
    case h_3 => exact absurd rfl hc
    case h_9 hquote hbackslash _ _ _ _ _ _ =>
      split
      · next hcontrol =>
        have hlt := toNat_lt_of_isControl hcontrol
        have hvalue := Hex.value?_upper (n := c.toNat) (by omega)
        have hhigh : Json.isHighSurrogate c.toNat = false := by
          simp [Json.isHighSurrogate]; omega
        have hlow : Json.isLowSurrogate c.toNat = false := by
          simp [Json.isLowSurrogate]; omega
        rw [Hex.upper] at hvalue ⊢
        simp only [List.cons_append, List.nil_append, Json.readString, hvalue, hhigh, hlow,
          Bool.false_eq_true, if_false, Char.ofNat_toNat]
      · next hcontrol =>
        have hprintable : ¬(c.toNat < 0x20 ∨ c = '\\') := by
          simp only [isControl, Bool.or_eq_true, decide_eq_true_eq, not_or] at hcontrol
          exact not_or.2 ⟨hcontrol.1, hbackslash⟩
        rw [List.singleton_append, Json.readString, if_neg hprintable]
        all_goals grind
    all_goals simp [Json.readString, Json.unescape?]

/-- **A quoted name gives the name back.** -/
theorem readString_nameChars (rest : List Char) :
    (name : List Char) → Json.readString (nameChars name ++ '"' :: rest) = some (name, rest)
  | [] => by simp [nameChars, Json.readString]
  | c :: name => by
      rw [nameChars, List.flatMap_cons, List.append_assoc, readString_nameChar, ← nameChars,
        readString_nameChars rest name, Option.map_some]

end DocFilter
