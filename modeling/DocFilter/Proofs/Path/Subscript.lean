import DocFilter.Path.Subscript
import DocFilter.Proofs.Text.Runs
import Mathlib.Data.List.Forall2

/-!
# How subscripts are written

The texts between brackets that are read as a subscript, stated without the reader: `*` between
blanks, or entries with commas between them, each an index or a range. A subscript with such a text
is ordered and has indexes of 64 bits, and every such subscript has its own text among them.

## Main definitions

* `Extent.Written`, `Subscript.Written`: the texts of an entry and of a subscript.
* `Subscript.WellFormed`: there is an entry, and no range goes backwards.
* `Subscript.InRange`: the indexes have 64 bits.

## Main results

* `Subscript.Written.wellFormed`: which subscripts have a text.
* `Subscript.written_inside`: a subscript is written by its own text.
-/

namespace DocFilter

/-! ### Entries -/

namespace Extent

/-- A run of digits that writes an index of 64 bits. -/
def WritesIndex (cs : List Char) (n : Nat) : Prop :=
  ∃ ds : List Digit, ds ≠ [] ∧ cs = ds.map Digit.toChar ∧ Digit.value ds = n ∧ n ≤ maxIndex

/-- The texts of an entry. -/
inductive Written : List Char → Extent → Prop
  | index {before digits after : List Char} {n : Nat} (hbefore : AllBlank before)
      (hn : WritesIndex digits n) (hafter : AllBlank after) :
      Written (before ++ (digits ++ after)) (.index n)
  | range {before digits gap gap' digits' after : List Char} {low high : Nat}
      (hbefore : AllBlank before) (hlow : WritesIndex digits low)
      (hgap : gap ≠ [] ∧ AllBlank gap) (hgap' : gap' ≠ [] ∧ AllBlank gap')
      (hhigh : WritesIndex digits' high) (hle : low ≤ high) (hafter : AllBlank after) :
      Written (before ++ (digits ++ (gap ++ 't' :: 'o' :: (gap' ++ (digits' ++ after)))))
        (.range low high)

theorem writesIndex_repr {n : Nat} (h : n ≤ maxIndex) : WritesIndex (Nat.repr n).toList n :=
  ⟨Digit.ofNat n, Digit.ofNat_ne_nil n, by rw [Nat.toList_repr, Digit.map_toChar_ofNat],
    Digit.value_ofNat n, h⟩

/-- The characters that occur in an entry. -/
def isEntryChar (c : Char) : Bool :=
  isBlank c || (Digit.ofChar? c).isSome || c == 't' || c == 'o'

theorem isEntryChar_of_allBlank {cs : List Char} (h : AllBlank cs) : ∀ c ∈ cs, isEntryChar c :=
  fun c hc => by simp [isEntryChar, h c hc]

theorem WritesIndex.isEntryChar {cs : List Char} {n : Nat} (h : WritesIndex cs n) :
    ∀ c ∈ cs, isEntryChar c := by
  obtain ⟨ds, -, rfl, -⟩ := h
  simp [Extent.isEntryChar]

theorem Written.isEntryChar {cs : List Char} {e : Extent} (h : Written cs e) :
    ∀ c ∈ cs, isEntryChar c := by
  cases h with
  | index hbefore hn hafter =>
    simp only [List.forall_mem_append]
    exact ⟨isEntryChar_of_allBlank hbefore, hn.isEntryChar, isEntryChar_of_allBlank hafter⟩
  | range hbefore hlow hgap hgap' hhigh hle hafter =>
    simp only [List.forall_mem_append, List.forall_mem_cons]
    exact ⟨isEntryChar_of_allBlank hbefore, hlow.isEntryChar, isEntryChar_of_allBlank hgap.2, rfl,
      rfl, isEntryChar_of_allBlank hgap'.2, hhigh.isEntryChar, isEntryChar_of_allBlank hafter⟩

/-- Whether a range does not go backwards. -/
def WellFormed : Extent → Prop
  | index _ => True
  | range low high => low ≤ high

/-- Whether the indexes have 64 bits. -/
def InRange : Extent → Prop
  | index n => n ≤ maxIndex
  | range low high => low ≤ maxIndex ∧ high ≤ maxIndex

theorem Written.wellFormed {cs : List Char} {e : Extent} (h : Written cs e) : e.WellFormed := by
  cases h with
  | index => trivial
  | range _ _ _ _ _ hle _ => exact hle

theorem WritesIndex.le {cs : List Char} {n : Nat} (h : WritesIndex cs n) : n ≤ maxIndex := by
  obtain ⟨_, _, _, _, hmax⟩ := h
  exact hmax

theorem Written.inRange {cs : List Char} {e : Extent} (h : Written cs e) : e.InRange := by
  cases h with
  | index _ hn _ => exact hn.le
  | range _ hlow _ _ hhigh _ _ => exact ⟨hlow.le, hhigh.le⟩

/-- An entry is written by its own text. -/
theorem written_text {e : Extent} (h : e.WellFormed) (hrange : e.InRange) :
    Written e.text.toList e := by
  have hnil : AllBlank [] := List.forall_mem_nil _
  cases e with
  | index n =>
    have hwritten := Written.index hnil (writesIndex_repr hrange) hnil
    rwa [List.nil_append, List.append_nil] at hwritten
  | range low high =>
    have hblank : [' '] ≠ [] ∧ AllBlank [' '] := ⟨List.cons_ne_nil _ _, by simp [AllBlank]; decide⟩
    have hwritten := Written.range hnil (writesIndex_repr hrange.1) hblank hblank
      (writesIndex_repr hrange.2) h hnil
    simpa [Extent.text] using hwritten

end Extent

/-! ### Subscripts -/

namespace Subscript

/-- The texts of a subscript, without its brackets. -/
inductive Written : List Char → Subscript → Prop
  | all {before after : List Char} (hbefore : AllBlank before) (hafter : AllBlank after) :
      Written (before ++ '*' :: after) .all
  | list {parts : List (List Char)} {extents : List Extent} (hne : parts ≠ [])
      (hparts : List.Forall₂ Extent.Written parts extents) :
      Written (List.intercalate [','] parts) (.list extents)

theorem written_all_iff {cs : List Char} :
    Written cs .all ↔
      ∃ before after, cs = before ++ '*' :: after ∧ AllBlank before ∧ AllBlank after := by
  constructor
  · rintro ⟨hbefore, hafter⟩
    exact ⟨_, _, rfl, hbefore, hafter⟩
  · rintro ⟨before, after, rfl, hbefore, hafter⟩
    exact .all hbefore hafter

theorem written_list_iff {cs : List Char} {extents : List Extent} :
    Written cs (.list extents) ↔
      ∃ parts, cs = List.intercalate [','] parts ∧ parts ≠ [] ∧
        List.Forall₂ Extent.Written parts extents := by
  constructor
  · rintro (_ | ⟨hne, hparts⟩)
    exact ⟨_, rfl, hne, hparts⟩
  · rintro ⟨parts, rfl, hne, hparts⟩
    exact .list hne hparts

/-- The characters of a list of entries. -/
theorem mem_intercalate {parts : List (List Char)} {extents : List Extent}
    (h : List.Forall₂ Extent.Written parts extents) {c : Char}
    (hc : c ∈ List.intercalate [','] parts) : c = ',' ∨ Extent.isEntryChar c := by
  induction h with
  | nil => cases hc
  | @cons part e parts es hpart hparts ih =>
    cases hparts with
    | nil =>
      rw [List.intercalate_singleton] at hc
      exact Or.inr (hpart.isEntryChar c hc)
    | cons _ _ =>
      rw [List.intercalate_cons_cons, List.append_assoc] at hc
      rcases List.mem_append.1 hc with hc | hc
      · exact Or.inr (hpart.isEntryChar c hc)
      · rcases List.mem_cons.1 hc with rfl | hc
        · exact Or.inl rfl
        · exact ih hc

/-- Whether there is an entry and no range goes backwards. -/
def WellFormed : Subscript → Prop
  | all => True
  | list extents => extents ≠ [] ∧ ∀ e ∈ extents, e.WellFormed

/-- Whether the indexes have 64 bits. -/
def InRange : Subscript → Prop
  | all => True
  | list extents => ∀ e ∈ extents, e.InRange

/-- The text of a subscript between its brackets. -/
def inside : Subscript → String
  | all => "*"
  | list extents => String.intercalate "," (extents.map Extent.text)

theorem text_eq (s : Subscript) : s.text = "[" ++ s.inside ++ "]" := by
  cases s <;> rfl

/-- The characters of a subscript. -/
theorem Written.mem {cs : List Char} {s : Subscript} (h : Written cs s) {c : Char} (hc : c ∈ cs) :
    c = '*' ∨ c = ',' ∨ Extent.isEntryChar c := by
  cases h with
  | all hbefore hafter =>
    rcases List.mem_append.1 hc with hc | hc
    · exact Or.inr (Or.inr (Extent.isEntryChar_of_allBlank hbefore c hc))
    · rcases List.mem_cons.1 hc with rfl | hc
      · exact Or.inl rfl
      · exact Or.inr (Or.inr (Extent.isEntryChar_of_allBlank hafter c hc))
  | list _ hparts => exact Or.inr (mem_intercalate hparts hc)

theorem Written.not_bracket {cs : List Char} {s : Subscript} (h : Written cs s) :
    '[' ∉ cs ∧ ']' ∉ cs :=
  ⟨fun hc => absurd (h.mem hc) (by decide), fun hc => absurd (h.mem hc) (by decide)⟩

theorem Written.wellFormed {cs : List Char} {s : Subscript} (h : Written cs s) :
    s.WellFormed ∧ s.InRange := by
  cases h with
  | all => exact ⟨trivial, trivial⟩
  | @list parts extents hne hparts =>
    have hextents : ∀ e ∈ extents, e.WellFormed ∧ e.InRange := by
      clear hne
      induction hparts with
      | nil => exact List.forall_mem_nil _
      | cons hpart _ ih => exact List.forall_mem_cons.2 ⟨⟨hpart.wellFormed, hpart.inRange⟩, ih⟩
    refine ⟨⟨?_, fun e he => (hextents e he).1⟩, fun e he => (hextents e he).2⟩
    rintro rfl
    exact hne (List.forall₂_nil_right_iff.1 hparts)

theorem written_inside {s : Subscript} (h : s.WellFormed) (hrange : s.InRange) :
    Written s.inside.toList s := by
  cases s with
  | all => exact .all (List.forall_mem_nil _) (List.forall_mem_nil _)
  | list extents =>
    rw [inside, String.toList_intercalate, List.map_map]
    refine .list (by simpa using h.1) ?_
    rw [List.forall₂_map_left_iff, List.forall₂_same]
    exact fun e he => Extent.written_text (h.2 e he) (hrange e he)

end Subscript

end DocFilter
