import DocFilter.Path.Rendition
import DocFilter.Proofs.Path.Grammar

/-!
# Paths are read from their own text

Which paths are read at all, and which of them from the text that they are written with. Both are
the same: the paths with a step, without neighbouring array steps, and with steps that their
notation can tell apart. Each step of such a path has a spelling of its own, and these spellings are
a reading of the text of the path.

## Main definitions

* `Path.WellFormed`: the paths of the notation.
* `Path.Piece.ofStep`: how a step is spelled in the text of its path.

## Main results

* `Path.wellFormed_of_ofText`: a path that can be read is well-formed.
* `Path.ofText_text_eq_ok_iff`: the well-formed paths are those that are read from their own text.
-/

namespace DocFilter

/-! ### Well-formed paths -/

/-- Whether a step can stand in the notation of paths: a name is not empty, has no backquote and is
no wildcard, and without quotes it needs none. -/
def Step.WellFormed : Step → Prop
  | field name quoted =>
    name ≠ "" ∧ '\x60' ∉ name.toList ∧ name ≠ "*" ∧ (quoted = false → needsQuoting name = false)
  | wildcard => True
  | array subscript => subscript.WellFormed

/-- Whether the indexes of a step have 64 bits. -/
def Step.InRange : Step → Prop
  | array subscript => subscript.InRange
  | _ => True

namespace Path

/-- The paths of the notation: there is a step, no two array steps are neighbours, and every step is
well-formed. -/
structure WellFormed (p : Path) : Prop where
  ne_nil : p.steps ≠ []
  apart : p.steps.IsChain fun s s' => ¬(s.isArray ∧ s'.isArray)
  steps : ∀ s ∈ p.steps, s.WellFormed

/-- Whether the indexes of a path have 64 bits. -/
def InRange (p : Path) : Prop :=
  ∀ s ∈ p.steps, s.InRange

/-! ### What is read is well-formed -/

theorem Piece.Valid.wellFormed_step {p : Piece} (h : p.Valid) :
    p.step.WellFormed ∧ p.step.InRange := by
  cases p with
  | plain name =>
    obtain ⟨hne, -, -, hname⟩ := h
    rw [Piece.step]
    split
    · exact ⟨trivial, trivial⟩
    · next hstar => exact ⟨⟨hne, fun hmem => (hname _ hmem).2.2.2 rfl, hstar, id⟩, trivial⟩
  | quoted name =>
    rw [Piece.step]
    split
    · exact ⟨trivial, trivial⟩
    · next hstar => exact ⟨⟨h.1, h.2, hstar, fun h => absurd h (by decide)⟩, trivial⟩
  | bracketed inside subscript =>
    exact (Subscript.ofText?_eq_some_iff.1 h.2.2).wellFormed

theorem Reading.wellFormed_path (r : Reading) : r.path.WellFormed ∧ r.path.InRange := by
  have hsteps : ∀ s ∈ r.path.steps, s.WellFormed ∧ s.InRange := by
    intro s hs
    obtain ⟨p, hp, rfl⟩ := List.mem_map.1 hs
    exact (r.valid p hp).wellFormed_step
  refine ⟨⟨List.cons_ne_nil _ _, ?_, fun s hs => (hsteps s hs).1⟩, fun s hs => (hsteps s hs).2⟩
  refine (List.isChain_map _).2 (r.apart.imp fun p q hapart => ?_)
  rwa [Piece.isArray_step, Piece.isArray_step]

theorem wellFormed_of_ofText {s : String} {p : Path} (h : ofText s = .ok p) :
    p.WellFormed ∧ p.InRange := by
  obtain ⟨r, -, rfl⟩ := ofText_eq_ok_iff.1 h
  exact r.wellFormed_path

/-! ### A path is read from its own text -/

theorem isPlainChar_of_isWordChar {c : Char} (h : isWordChar c) : isPlainChar c := by
  simp only [isPlainChar, Bool.and_eq_true, bne_iff_ne]
  refine ⟨⟨⟨?_, ?_⟩, ?_⟩, ?_⟩ <;> rintro rfl <;> exact absurd h (by decide)

/-- A name that needs no quotes is not empty and has only characters of words. -/
theorem isWordChar_of_needsQuoting {name : String} (h : needsQuoting name = false) :
    name.toList ≠ [] ∧ ∀ c ∈ name.toList, isWordChar c := by
  unfold needsQuoting at h
  split at h
  · cases h
  · next c cs heq =>
    rw [heq]
    simp only [Bool.or_eq_false_iff, Bool.not_eq_false', List.all_eq_true] at h
    exact ⟨List.cons_ne_nil _ _, h.2⟩

namespace Piece

/-- How a step is spelled in the text of its path. -/
def ofStep : Step → Piece
  | .field name true => .quoted name
  | .field name false => .plain name
  | .wildcard => .plain "*"
  | .array subscript => .bracketed subscript.inside subscript

theorem text_ofStep (s : Step) : (ofStep s).text = s.sourceText.toList := by
  cases s with
  | field name quoted => cases quoted <;> simp [ofStep, text, Step.sourceText]
  | wildcard => rfl
  | array subscript => simp [ofStep, text, Step.sourceText, Subscript.text_eq]

theorem isBracketed_ofStep (s : Step) : (ofStep s).isBracketed = s.isArray := by
  cases s with
  | field name quoted => cases quoted <;> rfl
  | wildcard => rfl
  | array subscript => rfl

theorem dot_ofStep (s : Step) : (ofStep s).dot = s.dot.toList := by
  rw [dot, Step.dot, isBracketed_ofStep]
  split <;> rfl

theorem valid_ofStep {s : Step} (h : s.WellFormed) (hrange : s.InRange) : (ofStep s).Valid := by
  cases s with
  | field name quoted =>
    obtain ⟨hne, hquote, hstar, hplain⟩ := h
    cases quoted with
    | true => exact ⟨hne, hquote⟩
    | false =>
      have hneeds := hplain rfl
      have hword := (isWordChar_of_needsQuoting hneeds).2
      have hchars (c : Char) (hc : c ∈ name.toList) :=
        isPlainChar_iff.1 (isPlainChar_of_isWordChar (hword c hc))
      refine ⟨hne, ?_, ?_, hchars⟩ <;> rintro rfl <;> exact absurd hneeds (by decide)
  | wildcard =>
    refine ⟨by decide, by decide, by decide, fun c hc => ?_⟩
    obtain rfl : c = '*' := by simpa using hc
    decide
  | array subscript =>
    have hwritten := Subscript.written_inside h hrange
    exact ⟨hwritten.not_bracket.1, hwritten.not_bracket.2,
      Subscript.ofText?_eq_some_iff.2 hwritten⟩

theorem step_ofStep {s : Step} (h : s.WellFormed) : (ofStep s).step = s := by
  cases s with
  | field name quoted =>
    obtain ⟨-, -, hstar, hplain⟩ := h
    cases quoted with
    | true => exact if_neg hstar
    | false => rw [ofStep, step, if_neg hstar, hplain rfl]
  | wildcard => rfl
  | array subscript => rfl

end Piece

theorem toList_text (s : Step) (steps : List Step) :
    (mk (s :: steps)).text.toList = s.sourceText.toList ++ tailText (steps.map Piece.ofStep) := by
  rw [text, String.toList_append]
  congr 1
  induction steps with
  | nil => rfl
  | cons s' steps ih =>
    rw [List.map_cons, String.join_cons, String.toList_append, String.toList_append, ih,
      List.map_cons, tailText, tailText, List.flatMap_cons, Piece.text_ofStep, Piece.dot_ofStep]

theorem ofText_text {p : Path} (h : p.WellFormed) (hrange : p.InRange) : ofText p.text = .ok p := by
  obtain ⟨steps⟩ := p
  cases steps with
  | nil => exact absurd rfl h.ne_nil
  | cons s steps =>
    have hvalid : ∀ p ∈ (s :: steps).map Piece.ofStep, p.Valid := by
      intro p hp
      obtain ⟨s', hs', rfl⟩ := List.mem_map.1 hp
      exact Piece.valid_ofStep (h.steps s' hs') (hrange s' hs')
    have hapart : ((s :: steps).map Piece.ofStep).IsChain Piece.Apart := by
      refine (List.isChain_map _).2 (h.apart.imp fun s s' hne => ?_)
      rwa [Piece.Apart, Piece.isBracketed_ofStep, Piece.isBracketed_ofStep]
    have hsteps : ((s :: steps).map Piece.ofStep).map Piece.step = s :: steps := by
      rw [List.map_map]
      exact (List.map_congr_left fun s' hs' => Piece.step_ofStep (h.steps s' hs')).trans
        (List.map_id _)
    refine ofText_eq_ok_iff.2 ⟨⟨Piece.ofStep s, steps.map Piece.ofStep, hvalid, hapart⟩, ?_, ?_⟩
    · rw [Reading.text, Piece.text_ofStep, ← toList_text, String.ofList_toList]
    · exact congrArg mk hsteps

/-- **Reading and writing are inverse on the well-formed paths only.** Every path that is read is
well-formed, and a path is read from its own text exactly if it is. The indexes of a path that is
read have 64 bits, and so do those of a path that can be read back. -/
theorem ofText_text_eq_ok_iff :
    (∀ s p, ofText s = .ok p → p.WellFormed ∧ p.InRange) ∧
      ∀ p, ofText (text p) = .ok p ↔ p.WellFormed ∧ p.InRange :=
  ⟨fun _ _ => wellFormed_of_ofText,
    fun _ => ⟨wellFormed_of_ofText, fun h => ofText_text h.1 h.2⟩⟩

end Path

end DocFilter
