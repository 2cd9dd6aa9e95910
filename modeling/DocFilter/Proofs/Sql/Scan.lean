import DocFilter.Proofs.Sql.Literal
import DocFilter.Sql.Fragment
import Mathlib.Data.List.Forall2

/-!
# Scanning statements

A reader of SQL passes over literals between apostrophes, in which an apostrophe is doubled, and
over identifiers between double quotes. All else is code, and there a question mark is a
placeholder. A text is closed if the reader ends outside of literals and identifiers.

## Main definitions

* `Region`: where a reader stands.
* `scan`: where a reader ends, and the number of placeholders that it has met.
* `Closed`: a text that leaves nothing open, with its number of placeholders.
* `Scans`: the scan of a part of a text, from any region to any other.

## Main results

* `Scans.append`: parts that are put together.
* `scans_literal`, `scans_quoteIdentifier`: the inside of a literal, and a whole identifier.
* `closed_intercalate`: closed texts with separators between them.
-/

namespace DocFilter

/-! ### Regions -/

/-- Where a reader of SQL stands. -/
inductive Region where
  | code
  | literal
  /-- Behind an apostrophe that ends a literal, unless another one follows. -/
  | closing
  | identifier
deriving DecidableEq, Repr

namespace Region

/-- Whether a statement may end here. -/
def isOutside : Region → Bool
  | code => true
  | closing => true
  | literal => false
  | identifier => false

/-- The region that a character of code opens. -/
def opened (c : Char) : Region :=
  if c = '\'' then literal else if c = '"' then identifier else code

/-- The region behind one more character. -/
def next : Region → Char → Region
  | code, c => opened c
  | literal, c => if c = '\'' then closing else literal
  -- A second apostrophe makes the first one a part of the literal.
  | closing, c => if c = '\'' then literal else opened c
  | identifier, c => if c = '"' then code else identifier

/-- The number of placeholders that a character is. -/
def placeholders (r : Region) (c : Char) : Nat :=
  if r.isOutside ∧ c = '?' then 1 else 0

end Region

/-- The state of a scan. -/
structure Scan where
  region : Region
  placeholders : Nat
deriving DecidableEq, Repr

/-- The scan of one character. -/
def Scan.step (s : Scan) (c : Char) : Scan :=
  ⟨s.region.next c, s.placeholders + s.region.placeholders c⟩

/-- The scan of a whole text. -/
def scan (s : String) : Scan :=
  s.toList.foldl Scan.step ⟨.code, 0⟩

/-- Whether a text ends outside of literals and identifiers, and has `n` placeholders. -/
def Closed (s : String) (n : Nat) : Prop :=
  (scan s).region.isOutside = true ∧ (scan s).placeholders = n

/-! ### Parts of a text -/

/-- The part `s` leads from one region to another and has `n` placeholders. -/
def Scans (r : Region) (s : String) (r' : Region) (n : Nat) : Prop :=
  s.toList.foldl Scan.step ⟨r, 0⟩ = ⟨r', n⟩

variable {r r' r'' : Region} {s s' : String} {n n' : Nat}

instance : Decidable (Scans r s r' n) :=
  inferInstanceAs (Decidable (_ = _))

/-- What has been counted before a part makes no difference to it. -/
theorem foldl_step (r : Region) (k : Nat) (cs : List Char) :
    cs.foldl Scan.step ⟨r, k⟩ =
      ⟨(cs.foldl Scan.step ⟨r, 0⟩).region, k + (cs.foldl Scan.step ⟨r, 0⟩).placeholders⟩ := by
  induction cs generalizing r k with
  | nil => rfl
  | cons c cs ih =>
    rw [List.foldl_cons, List.foldl_cons, Scan.step, Scan.step, ih, ih _ (0 + _)]
    simp only [Nat.zero_add, Nat.add_assoc]

theorem Scans.append (h : Scans r s r' n) (h' : Scans r' s' r'' n') :
    Scans r (s ++ s') r'' (n + n') := by
  rw [Scans, String.toList_append, List.foldl_append, h, foldl_step, h']

/-- A part without placeholders does not count. -/
theorem Scans.append_zero (h : Scans r s r' n) (h' : Scans r' s' r'' 0) :
    Scans r (s ++ s') r'' n :=
  h.append h'

/-- Behind a literal, only an empty part makes a difference. -/
theorem Scans.of_outside (h : Scans .code s r' n) (hs : s ≠ "") (hr : r.isOutside = true) :
    Scans r s r' n := by
  cases r with
  | code => exact h
  | closing =>
    rw [Scans, ← h]
    cases hlist : s.toList with
    | nil => exact absurd (String.toList_eq_nil_iff.1 hlist) hs
    | cons c cs =>
      have hnext : Region.next .closing c = Region.next .code c := by
        by_cases hc : c = '\''
        · rw [hc]
          rfl
        · exact if_neg hc
      rw [List.foldl_cons, List.foldl_cons, Scan.step, Scan.step, hnext]
      rfl
  | literal => cases hr
  | identifier => cases hr

theorem Scans.closed (h : Scans .code s r n) (hr : r.isOutside = true) : Closed s n := by
  rw [Closed, scan, h]
  exact ⟨hr, rfl⟩

theorem Closed.scans (h : Closed s n) : ∃ r, r.isOutside = true ∧ Scans .code s r n :=
  ⟨_, h.1, congrArg (Scan.mk _) h.2⟩

theorem Closed.prepend (h : Closed s' n) (hs : Scans .code s .code 0) : Closed (s ++ s') n := by
  obtain ⟨r, hr, hscans⟩ := h.scans
  rw [← Nat.zero_add n]
  exact (hs.append hscans).closed hr

/-- A part that changes the region with none of its characters. -/
theorem scans_of_forall (h : ∀ c ∈ s.toList, r.next c = r ∧ r.placeholders c = 0) :
    Scans r s r 0 := by
  unfold Scans
  generalize s.toList = cs at h
  induction cs with
  | nil => rfl
  | cons c cs ih =>
    obtain ⟨hc, hcs⟩ := List.forall_mem_cons.1 h
    rw [List.foldl_cons, Scan.step, hc.1, hc.2]
    exact ih hcs

/-! ### Literals and identifiers -/

/-- **No text whose apostrophes are doubled leaves its literal.** -/
theorem scans_literal (h : Quotable s) : Scans .literal s .literal 0 := by
  obtain ⟨plain, hplain⟩ := h
  rw [Scans, hplain]
  clear hplain
  induction plain with
  | nil => rfl
  | cons c cs ih =>
    rw [doubled_cons, List.foldl_append]
    by_cases hc : c = '\''
    · -- The two apostrophes lead out of the literal and back into it.
      rw [hc]
      exact ih
    · rw [doubledChar_of_ne hc, List.foldl_cons, List.foldl_nil, Scan.step, Region.next, if_neg hc]
      exact ih

theorem scans_identifier (h : '"' ∉ s.toList) : Scans .identifier s .identifier 0 := by
  apply scans_of_forall
  intro c hc
  have hne : c ≠ '"' := by
    rintro rfl
    exact h hc
  exact ⟨if_neg hne, rfl⟩

/-- A name without double quotes stands in its quotes as it is. -/
theorem scans_quoteIdentifier (h : '"' ∉ s.toList) : Scans .code (quoteIdentifier s) .code 0 := by
  have hopen : Scans .code "\"" .identifier 0 := by decide
  have hclose : Scans .identifier "\"" .code 0 := by decide
  exact (hopen.append (scans_identifier h)).append hclose

/-- A number is code. -/
theorem scans_repr (m : Nat) : Scans .code (Nat.repr m) .code 0 := by
  apply scans_of_forall
  intro c hc
  rw [Nat.toList_repr] at hc
  have hdigit : c.isDigit = true := Nat.isDigit_of_mem_toDigits (by decide) (by decide) hc
  have hne {c' : Char} (hc' : c'.isDigit = false) : c ≠ c' := by
    rintro rfl
    rw [hc'] at hdigit
    cases hdigit
  constructor
  · rw [Region.next, Region.opened, if_neg (hne rfl), if_neg (hne rfl)]
  · exact if_neg fun h => hne rfl h.2

/-! ### Joined texts -/

/-- **Closed texts stay closed with a separator between them,** and their placeholders together
stand for all of their values. -/
theorem closed_intercalate {β : Type} {separator : String}
    (hseparator : Scans .code separator .code 0) (hne : separator ≠ "") {texts : List String}
    {values : List (List β)} (h : List.Forall₂ (fun s bs => Closed s bs.length) texts values) :
    Closed (String.intercalate separator texts) values.flatten.length := by
  induction h with
  | nil => exact ⟨rfl, rfl⟩
  | @cons text bs texts values htext h ih =>
    cases h with
    | nil =>
      rw [String.intercalate_singleton, List.flatten_singleton]
      exact htext
    | cons htext' h =>
      obtain ⟨r, hr, hscans⟩ := htext.scans
      obtain ⟨r', hr', hscans'⟩ := ih.scans
      rw [String.intercalate_cons_cons, List.flatten_cons, List.length_append]
      exact ((hscans.append_zero (hseparator.of_outside hne hr)).append hscans').closed hr'

theorem closed_intercalate_of_forall {separator : String}
    (hseparator : Scans .code separator .code 0) (hne : separator ≠ "") {texts : List String}
    (h : ∀ s ∈ texts, Closed s n) :
    Closed (String.intercalate separator texts) (texts.length * n) := by
  have hvalues : List.Forall₂ (fun s (bs : List Unit) => Closed s bs.length) texts
      (List.replicate texts.length (List.replicate n ())) := by
    induction texts with
    | nil => exact .nil
    | cons s texts ih =>
      obtain ⟨hs, htexts⟩ := List.forall_mem_cons.1 h
      exact .cons (by rwa [List.length_replicate]) (ih htexts)
  have hall := closed_intercalate hseparator hne hvalues
  rwa [List.flatten_replicate_replicate, List.length_replicate] at hall

end DocFilter
