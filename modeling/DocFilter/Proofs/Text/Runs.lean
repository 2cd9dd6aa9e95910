import DocFilter.Text.Blank
import DocFilter.Text.Digit
import Mathlib.Data.List.TakeWhile

/-!
# Runs at the start of a text

Readers take the longest run of characters of one kind from the start of a text. What they take and
what they leave is determined by the text: it is the run followed by a rest that starts with another
character.

## Main results

* `takeWhile_dropWhile_eq_iff`: the run of a kind of characters, and the rest.
* `Digit.run_eq_iff`: the case of digits.
-/

namespace DocFilter

/-- The longest run of characters of a kind, and the text after it. -/
theorem takeWhile_dropWhile_eq_iff {p : Char → Bool} {cs run rest : List Char} :
    cs.takeWhile p = run ∧ cs.dropWhile p = rest ↔
      cs = run ++ rest ∧ (∀ c ∈ run, p c) ∧ ∀ c ∈ rest.head?, p c = false := by
  constructor
  · rintro ⟨rfl, rfl⟩
    refine ⟨List.takeWhile_append_dropWhile.symm, fun c hc => List.mem_takeWhile_imp hc, ?_⟩
    intro c hc
    have hhead := List.head?_dropWhile_not p cs
    rw [Option.mem_def.1 hc] at hhead
    simpa using hhead
  · rintro ⟨rfl, hrun, hrest⟩
    rw [List.takeWhile_append_of_pos hrun, List.dropWhile_append_of_pos hrun]
    cases rest with
    | nil => simp
    | cons c rest => simp [hrest c rfl]

theorem drop_length_takeWhile (p : Char → Bool) (cs : List Char) :
    cs.drop (cs.takeWhile p).length = cs.dropWhile p := by
  induction cs with
  | nil => rfl
  | cons c cs ih => by_cases hc : p c <;> simp [hc, ih]

/-! ### Blanks -/

/-- A text of blanks, possibly empty. -/
def AllBlank (cs : List Char) : Prop :=
  ∀ c ∈ cs, isBlank c

/-! ### Digits -/

namespace Digit

/-- The run of digits of a text, and the text after it. -/
theorem run_eq_iff {cs rest : List Char} {ds : List Digit} :
    run cs = (ds, rest) ↔
      cs = ds.map toChar ++ rest ∧ ∀ c ∈ rest.head?, ofChar? c = none := by
  constructor
  · intro h
    obtain ⟨rfl, hrest⟩ := Prod.mk.inj h
    obtain ⟨hcs, hdigits, hhead⟩ := takeWhile_dropWhile_eq_iff.1 ⟨rfl, hrest⟩
    rw [map_toChar_filterMap hdigits]
    exact ⟨hcs, fun c hc => by simpa using hhead c hc⟩
  · rintro ⟨rfl, hrest⟩
    have hdigits : ∀ c ∈ ds.map toChar, (ofChar? c).isSome := by simp
    have hread : (ds.map toChar).filterMap ofChar? = ds := by
      rw [List.filterMap_map, show ofChar? ∘ toChar = some from funext ofChar?_toChar,
        List.filterMap_some]
    obtain ⟨htake, hdrop⟩ := takeWhile_dropWhile_eq_iff.2
      ⟨rfl, hdigits, fun c hc => by rw [hrest c hc, Option.isSome_none]⟩
    rw [run, htake, hdrop, hread]

end Digit

end DocFilter
