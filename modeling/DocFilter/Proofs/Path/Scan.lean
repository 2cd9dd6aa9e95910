import DocFilter.Path.Scan
import DocFilter.Proofs.Path.Subscript

/-!
# Scans of subscripts

A scan accepts exactly the texts of subscripts. In one direction, every phase stands for what has
been read: the finished entries with a comma behind each, and the part of an entry that the phase
names. One step keeps this, so a whole run does, and at the end the text is one of the subscript. In
the other direction, the scan of an entry leaves the scanner ready for a comma and for the end, with
nothing kept of the entry but the entry itself.

## Main definitions

* `Subscript.Scan.Scanned`: what has been read where a scan stands.
* `Subscript.Scan.Completes`: a scan behind an entry.
* `Subscript.normal?`: the text of a subscript without spare blanks and leading zeros.

## Main results

* `Scan.Scanned.step`, `Scan.Scanned.run`: one step and a whole run keep what has been read.
* `Scan.exists_run_of_written`: the scan of an entry.
* `Subscript.ofChars?_eq_some_iff`: the reader accepts exactly the texts of a subscript.
* `Subscript.ofText?_eq_some_iff_written`: the cases of this, and what is read from a subscript's
  own text.
-/

namespace DocFilter.Subscript

/-! ### Signs -/

namespace Sign

/-- Whether a character is of the kind. -/
def Is (c : Char) : Sign → Prop
  | blank => isBlank c
  | digit d => c = d.toChar
  | star => c = '*'
  | comma => c = ','
  | t => c = 't'
  | o => c = 'o'

theorem is_of_ofChar? {c : Char} {sign : Sign} (h : ofChar? c = some sign) : sign.Is c := by
  unfold ofChar? at h
  split_ifs at h with hblank
  · obtain rfl := Option.some.inj h
    exact hblank
  · split at h
    · next d hd =>
      obtain rfl := Option.some.inj h
      exact (Digit.toChar_of_ofChar? hd).symm
    · split at h
      case h_5 => cases h
      all_goals
        obtain rfl := Option.some.inj h
        rfl

theorem ofChar?_of_isBlank {c : Char} (h : isBlank c) : ofChar? c = some blank :=
  if_pos h

@[simp] theorem ofChar?_toChar (d : Digit) : ofChar? d.toChar = some (digit d) := by
  revert d; decide

theorem ofChar?_star : ofChar? '*' = some star := by decide

theorem ofChar?_comma : ofChar? ',' = some comma := by decide

theorem ofChar?_t : ofChar? 't' = some t := by decide

theorem ofChar?_o : ofChar? 'o' = some o := by decide

end Sign

namespace Scan

open Extent (WritesIndex)

/-! ### Indexes and entries -/

theorem index?_eq_some_iff {ds : List Digit} {n : Nat} :
    index? ds = some n ↔ ds ≠ [] ∧ Digit.value ds = n ∧ n ≤ Extent.maxIndex := by
  unfold index?
  constructor
  · intro h
    split_ifs at h with hds
    obtain rfl := Option.some.inj h
    exact ⟨hds.1, rfl, hds.2⟩
  · rintro ⟨hne, rfl, hmax⟩
    exact if_pos ⟨hne, hmax⟩

theorem writesIndex_iff {cs : List Char} {n : Nat} :
    WritesIndex cs n ↔ ∃ ds : List Digit, cs = ds.map Digit.toChar ∧ index? ds = some n := by
  simp only [WritesIndex, index?_eq_some_iff]
  exact exists_congr fun ds => and_left_comm

theorem endIndex?_eq_some_iff {s s' : Scan} (h : s.digits ≠ []) :
    s.endIndex? = some s' ↔
      ∃ n, index? s.digits = some n ∧ s' = { s with digits := [], low := some n } := by
  rw [endIndex?, if_neg h, Option.map_eq_some_iff]
  exact exists_congr fun n => and_congr_right fun _ => eq_comm

theorem endIndex?_of_index? {s : Scan} {n : Nat} (h : index? s.digits = some n) :
    s.endIndex? = some { s with digits := [], low := some n } :=
  (endIndex?_eq_some_iff (index?_eq_some_iff.1 h).1).2 ⟨n, h, rfl⟩

theorem finishRange?_eq_some_iff {s s' : Scan} :
    s.finishRange? = some s' ↔
      ∃ low high, s.low = some low ∧ index? s.digits = some high ∧ low ≤ high ∧
        s' = { s with extents := s.extents ++ [.range low high], digits := [], low := none } := by
  unfold finishRange?
  constructor
  · intro h
    obtain ⟨low, hlow, h⟩ := Option.bind_eq_some_iff.1 h
    obtain ⟨high, hhigh, h⟩ := Option.bind_eq_some_iff.1 h
    split_ifs at h with hlt
    exact ⟨low, high, hlow, hhigh, Nat.le_of_not_lt hlt, (Option.some.inj h).symm⟩
  · rintro ⟨low, high, hlow, hhigh, hle, rfl⟩
    simp [hlow, hhigh, Nat.not_lt.2 hle]

/-! ### What has been read -/

/-- Finished entries with a comma behind each. -/
def Listed (done : List Char) (es : List Extent) : Prop :=
  ∃ parts, List.Forall₂ Extent.Written parts es ∧ done = parts.flatMap (· ++ [','])

theorem listed_nil : Listed [] [] :=
  ⟨[], .nil, rfl⟩

theorem Listed.snoc {done part : List Char} {es : List Extent} {e : Extent} (h : Listed done es)
    (hpart : Extent.Written part e) : Listed (done ++ (part ++ [','])) (es ++ [e]) := by
  obtain ⟨parts, hparts, rfl⟩ := h
  exact ⟨parts ++ [part], List.rel_append hparts (.cons hpart .nil), by simp⟩

theorem intercalate_concat (part : List Char) (parts : List (List Char)) :
    List.intercalate [','] (parts ++ [part]) = parts.flatMap (· ++ [',']) ++ part := by
  induction parts with
  | nil => exact List.intercalate_singleton
  | cons part' parts ih =>
    rw [List.cons_append, List.intercalate_cons_of_ne_nil (List.concat_ne_nil _ _), ih,
      List.flatMap_cons, ← List.append_assoc]

/-- The last entry has no comma behind it. -/
theorem Listed.written {done part : List Char} {es : List Extent} {e : Extent}
    (h : Listed done es) (hpart : Extent.Written part e) :
    Subscript.Written (done ++ part) (.list (es ++ [e])) := by
  obtain ⟨parts, hparts, rfl⟩ := h
  rw [← intercalate_concat]
  exact .list (List.concat_ne_nil _ _) (List.rel_append hparts (.cons hpart .nil))

/-- Finished entries, an index, and blanks behind it. -/
inductive Led : List Char → List Extent → Nat → Prop
  | mk {done before digits gap : List Char} {es : List Extent} {n : Nat} (hdone : Listed done es)
      (hbefore : AllBlank before) (hn : WritesIndex digits n) (hgap : gap ≠ [] ∧ AllBlank gap) :
      Led (done ++ (before ++ (digits ++ gap))) es n

/-- What has been read where a scan stands. The digits and the lower end that the scan keeps are
those of the entry that it is in. -/
inductive Scanned : List Char → Scan → Prop
  | start {gap : List Char} (hgap : AllBlank gap) : Scanned gap ⟨.start, [], [], none⟩
  | star {before after : List Char} (hbefore : AllBlank before) (hafter : AllBlank after) :
      Scanned (before ++ '*' :: after) ⟨.star, [], [], none⟩
  | index {done gap : List Char} {es : List Extent} {ds : List Digit} (hdone : Listed done es)
      (hgap : AllBlank gap) (hds : ds ≠ []) :
      Scanned (done ++ (gap ++ ds.map Digit.toChar)) ⟨.index, es, ds, none⟩
  | afterIndex {lead : List Char} {es : List Extent} {n : Nat} (hlead : Led lead es n) :
      Scanned lead ⟨.afterIndex, es, [], some n⟩
  | afterT {lead : List Char} {es : List Extent} {n : Nat} (hlead : Led lead es n) :
      Scanned (lead ++ ['t']) ⟨.afterT, es, [], some n⟩
  | afterTo {lead : List Char} {es : List Extent} {n : Nat} (hlead : Led lead es n) :
      Scanned (lead ++ ['t', 'o']) ⟨.afterTo, es, [], some n⟩
  | rangeGap {lead gap : List Char} {es : List Extent} {n : Nat} (hlead : Led lead es n)
      (hgap : gap ≠ [] ∧ AllBlank gap) :
      Scanned (lead ++ 't' :: 'o' :: gap) ⟨.rangeGap, es, [], some n⟩
  | rangeEnd {lead gap : List Char} {es : List Extent} {n : Nat} {ds : List Digit}
      (hlead : Led lead es n) (hgap : gap ≠ [] ∧ AllBlank gap) (hds : ds ≠ []) :
      Scanned (lead ++ 't' :: 'o' :: (gap ++ ds.map Digit.toChar)) ⟨.rangeEnd, es, ds, some n⟩
  | afterRangeEnd {done part : List Char} {es : List Extent} {e : Extent} (hdone : Listed done es)
      (hpart : Extent.Written part e) :
      Scanned (done ++ part) ⟨.afterRangeEnd, es ++ [e], [], none⟩
  | comma {done gap : List Char} {es : List Extent} (hdone : Listed done es)
      (hgap : AllBlank gap) : Scanned (done ++ gap) ⟨.comma, es, [], none⟩

theorem allBlank_snoc {cs : List Char} {c : Char} (h : AllBlank cs) (hc : isBlank c) :
    AllBlank (cs ++ [c]) :=
  List.forall_mem_append.2 ⟨h, List.forall_mem_singleton.2 hc⟩

theorem gap_snoc {cs : List Char} {c : Char} (h : AllBlank cs) (hc : isBlank c) :
    cs ++ [c] ≠ [] ∧ AllBlank (cs ++ [c]) :=
  ⟨List.concat_ne_nil _ _, allBlank_snoc h hc⟩

theorem written_snoc {part : List Char} {e : Extent} {c : Char} (h : Extent.Written part e)
    (hc : isBlank c) : Extent.Written (part ++ [c]) e := by
  cases h with
  | index hbefore hn hafter =>
    simpa using Extent.Written.index hbefore hn (allBlank_snoc hafter hc)
  | range hbefore hlow hgap hgap' hhigh hle hafter =>
    simpa using
      Extent.Written.range hbefore hlow hgap hgap' hhigh hle (allBlank_snoc hafter hc)

/-- The text of an entry that is an index. -/
theorem written_index {gap : List Char} {ds : List Digit} {n : Nat} (hgap : AllBlank gap)
    (hn : index? ds = some n) : Extent.Written (gap ++ ds.map Digit.toChar) (.index n) := by
  simpa using Extent.Written.index hgap (writesIndex_iff.2 ⟨ds, rfl, hn⟩) (List.forall_mem_nil _)

/-- Behind an index and blanks, the index is an entry. -/
theorem Led.index {lead : List Char} {es : List Extent} {n : Nat} (h : Led lead es n) :
    ∃ done part, lead = done ++ part ∧ Listed done es ∧ Extent.Written part (.index n) := by
  obtain ⟨hdone, hbefore, hn, hgap⟩ := h
  exact ⟨_, _, rfl, hdone, .index hbefore hn hgap.2⟩

/-- Behind an index, `to` and another index, the range is an entry. -/
theorem Led.range {lead gap : List Char} {es : List Extent} {low high : Nat} {ds : List Digit}
    (h : Led lead es low) (hgap : gap ≠ [] ∧ AllBlank gap) (hhigh : index? ds = some high)
    (hle : low ≤ high) :
    ∃ done part, lead ++ 't' :: 'o' :: (gap ++ ds.map Digit.toChar) = done ++ part ∧
      Listed done es ∧ Extent.Written part (.range low high) := by
  obtain ⟨hdone, hbefore, hlow, hgap'⟩ := h
  refine ⟨_, _, ?_, hdone, .range hbefore hlow hgap' hgap (writesIndex_iff.2 ⟨ds, rfl, hhigh⟩) hle
    (List.forall_mem_nil _)⟩
  simp

/-- A comma behind an entry. -/
theorem scanned_comma {done part : List Char} {es : List Extent} {e : Extent}
    (hdone : Listed done es) (hpart : Extent.Written part e) :
    Scanned ((done ++ part) ++ [',']) ⟨.comma, es ++ [e], [], none⟩ := by
  simpa using Scanned.comma (hdone.snoc hpart) (List.forall_mem_nil _)

section Steps

variable {done gap lead : List Char} {es : List Extent} {ds : List Digit} {n : Nat} {c : Char}
  {sign : Sign} {s' : Scan}

/-- One step behind the digits of an index. -/
theorem step_index (hdone : Listed done es) (hgap : AllBlank gap) (hds : ds ≠ [])
    (his : sign.Is c) (hstep : step ⟨.index, es, ds, none⟩ sign = some s') :
    Scanned (done ++ (gap ++ ds.map Digit.toChar) ++ [c]) s' := by
  cases sign with
  | digit d =>
    obtain rfl := Option.some.inj hstep
    obtain rfl : c = d.toChar := his
    simpa [push] using Scanned.index hdone hgap (List.concat_ne_nil d ds)
  | blank =>
    dsimp only [Scan.step] at hstep
    obtain ⟨s₁, hend, rfl⟩ := Option.map_eq_some_iff.1 hstep
    obtain ⟨n, hn, rfl⟩ := (endIndex?_eq_some_iff hds).1 hend
    have hlead := Led.mk hdone hgap (writesIndex_iff.2 ⟨ds, rfl, hn⟩)
      (gap_snoc (List.forall_mem_nil _) his)
    simpa using Scanned.afterIndex hlead
  | comma =>
    dsimp only [Scan.step] at hstep
    obtain ⟨s₁, hfinish, rfl⟩ := Option.map_eq_some_iff.1 hstep
    obtain ⟨s₂, hend, hfinish⟩ := Option.bind_eq_some_iff.1 hfinish
    obtain ⟨n, hn, rfl⟩ := (endIndex?_eq_some_iff hds).1 hend
    obtain rfl := Option.some.inj hfinish
    obtain rfl : c = ',' := his
    exact scanned_comma hdone (written_index hgap hn)
  | _ => cases hstep

/-- One step behind an index and blanks. -/
theorem step_afterIndex (hlead : Led lead es n) (his : sign.Is c)
    (hstep : step ⟨.afterIndex, es, [], some n⟩ sign = some s') : Scanned (lead ++ [c]) s' := by
  cases sign with
  | blank =>
    obtain rfl := Option.some.inj hstep
    obtain ⟨hdone, hbefore, hn, hgap⟩ := hlead
    simpa using Scanned.afterIndex (.mk hdone hbefore hn (gap_snoc hgap.2 his))
  | comma =>
    dsimp only [Scan.step] at hstep
    obtain ⟨s₁, hfinish, rfl⟩ := Option.map_eq_some_iff.1 hstep
    obtain rfl := Option.some.inj hfinish
    obtain rfl : c = ',' := his
    obtain ⟨done, part, rfl, hdone, hpart⟩ := hlead.index
    exact scanned_comma hdone hpart
  | t =>
    obtain rfl := Option.some.inj hstep
    obtain rfl : c = 't' := his
    exact .afterT hlead
  | _ => cases hstep

/-- One step behind the digits of the upper end of a range. -/
theorem step_rangeEnd (hlead : Led lead es n) (hgap : gap ≠ [] ∧ AllBlank gap)
    (his : sign.Is c) (hstep : step ⟨.rangeEnd, es, ds, some n⟩ sign = some s') :
    Scanned (lead ++ 't' :: 'o' :: (gap ++ ds.map Digit.toChar) ++ [c]) s' := by
  cases sign with
  | digit d =>
    obtain rfl := Option.some.inj hstep
    obtain rfl : c = d.toChar := his
    simpa [push] using Scanned.rangeEnd hlead hgap (List.concat_ne_nil d ds)
  | blank =>
    dsimp only [Scan.step] at hstep
    obtain ⟨s₁, hfinish, rfl⟩ := Option.map_eq_some_iff.1 hstep
    obtain ⟨low, high, hlow, hhigh, hle, rfl⟩ := finishRange?_eq_some_iff.1 hfinish
    obtain rfl := Option.some.inj hlow
    obtain ⟨done, part, hcs, hdone, hpart⟩ := hlead.range hgap hhigh hle
    rw [hcs, List.append_assoc]
    exact .afterRangeEnd hdone (written_snoc hpart his)
  | comma =>
    dsimp only [Scan.step] at hstep
    obtain ⟨s₁, hfinish, rfl⟩ := Option.map_eq_some_iff.1 hstep
    obtain ⟨low, high, hlow, hhigh, hle, rfl⟩ := finishRange?_eq_some_iff.1 hfinish
    obtain rfl := Option.some.inj hlow
    obtain rfl : c = ',' := his
    obtain ⟨done, part, hcs, hdone, hpart⟩ := hlead.range hgap hhigh hle
    rw [hcs]
    exact scanned_comma hdone hpart
  | _ => cases hstep

end Steps

/-- **One step keeps what has been read.** -/
theorem Scanned.step {cs : List Char} {s s' : Scan} {c : Char} {sign : Sign} (h : Scanned cs s)
    (hc : Sign.ofChar? c = some sign) (hstep : s.step sign = some s') :
    Scanned (cs ++ [c]) s' := by
  have his := Sign.is_of_ofChar? hc
  cases h with
  | start hgap =>
    cases sign with
    | blank =>
      obtain rfl := Option.some.inj hstep
      exact .start (allBlank_snoc hgap his)
    | star =>
      obtain rfl := Option.some.inj hstep
      obtain rfl : c = '*' := his
      exact .star hgap (List.forall_mem_nil _)
    | digit d =>
      obtain rfl := Option.some.inj hstep
      obtain rfl : c = d.toChar := his
      exact .index listed_nil hgap (List.cons_ne_nil d [])
    | _ => cases hstep
  | star hbefore hafter =>
    cases sign with
    | blank =>
      obtain rfl := Option.some.inj hstep
      simpa using Scanned.star hbefore (allBlank_snoc hafter his)
    | _ => cases hstep
  | index hdone hgap hds => exact step_index hdone hgap hds his hstep
  | afterIndex hlead => exact step_afterIndex hlead his hstep
  | afterT hlead =>
    cases sign with
    | o =>
      obtain rfl := Option.some.inj hstep
      obtain rfl : c = 'o' := his
      simpa using Scanned.afterTo hlead
    | _ => cases hstep
  | afterTo hlead =>
    cases sign with
    | blank =>
      obtain rfl := Option.some.inj hstep
      simpa using Scanned.rangeGap hlead (gap_snoc (List.forall_mem_nil _) his)
    | _ => cases hstep
  | rangeGap hlead hgap =>
    cases sign with
    | blank =>
      obtain rfl := Option.some.inj hstep
      simpa using Scanned.rangeGap hlead (gap_snoc hgap.2 his)
    | digit d =>
      obtain rfl := Option.some.inj hstep
      obtain rfl : c = d.toChar := his
      simpa [push] using Scanned.rangeEnd hlead hgap (List.cons_ne_nil d [])
    | _ => cases hstep
  | rangeEnd hlead hgap _ => exact step_rangeEnd hlead hgap his hstep
  | afterRangeEnd hdone hpart =>
    cases sign with
    | blank =>
      obtain rfl := Option.some.inj hstep
      rw [List.append_assoc]
      exact .afterRangeEnd hdone (written_snoc hpart his)
    | comma =>
      obtain rfl := Option.some.inj hstep
      obtain rfl : c = ',' := his
      exact scanned_comma hdone hpart
    | _ => cases hstep
  | comma hdone hgap =>
    cases sign with
    | blank =>
      obtain rfl := Option.some.inj hstep
      simpa using Scanned.comma hdone (allBlank_snoc hgap his)
    | digit d =>
      obtain rfl := Option.some.inj hstep
      obtain rfl : c = d.toChar := his
      simpa [push] using Scanned.index hdone hgap (List.cons_ne_nil d [])
    | _ => cases hstep

/-- **A run keeps what has been read.** -/
theorem Scanned.run {cs rest : List Char} {s s' : Scan} (h : Scanned cs s)
    (hrun : s.run rest = some s') : Scanned (cs ++ rest) s' := by
  induction rest generalizing cs s with
  | nil =>
    obtain rfl := Option.some.inj hrun
    rwa [List.append_nil]
  | cons c rest ih =>
    obtain ⟨sign, hc, hrun⟩ := Option.bind_eq_some_iff.1 hrun
    obtain ⟨s₁, hstep, hrun⟩ := Option.bind_eq_some_iff.1 hrun
    have hrest := ih (h.step hc hstep) hrun
    rwa [List.append_assoc] at hrest

/-- At the end, the text is one of the subscript. -/
theorem Scanned.written {cs : List Char} {s : Scan} {sub : Subscript} (h : Scanned cs s)
    (hfinish : s.finish? = some sub) : Subscript.Written cs sub := by
  cases h with
  | star hbefore hafter =>
    obtain rfl := Option.some.inj hfinish
    exact .all hbefore hafter
  | index hdone hgap hds =>
    obtain ⟨s₁, hlast, rfl⟩ := Option.map_eq_some_iff.1 hfinish
    obtain ⟨s₂, hend, hlast⟩ := Option.bind_eq_some_iff.1 hlast
    obtain ⟨n, hn, rfl⟩ := (endIndex?_eq_some_iff hds).1 hend
    obtain rfl := Option.some.inj hlast
    exact hdone.written (written_index hgap hn)
  | afterIndex hlead =>
    obtain rfl := Option.some.inj hfinish
    obtain ⟨done, part, rfl, hdone, hpart⟩ := hlead.index
    exact hdone.written hpart
  | rangeEnd hlead hgap hds =>
    obtain ⟨s₁, hlast, rfl⟩ := Option.map_eq_some_iff.1 hfinish
    obtain ⟨low, high, hlow, hhigh, hle, rfl⟩ := finishRange?_eq_some_iff.1 hlast
    obtain rfl := Option.some.inj hlow
    obtain ⟨done, part, hcs, hdone, hpart⟩ := hlead.range hgap hhigh hle
    rw [hcs]
    exact hdone.written hpart
  | afterRangeEnd hdone hpart =>
    obtain rfl := Option.some.inj hfinish
    exact hdone.written hpart
  | _ => cases hfinish

/-! ### Scans of entries -/

theorem run_append (s : Scan) (cs cs' : List Char) :
    s.run (cs ++ cs') = (s.run cs).bind (run · cs') := by
  induction cs generalizing s with
  | nil => rfl
  | cons c cs ih =>
    simp only [List.cons_append, run, Option.bind_eq_bind, Option.bind_assoc, ih]

theorem run_cons {s s' : Scan} {c : Char} {sign : Sign} (hc : Sign.ofChar? c = some sign)
    (hs : s.step sign = some s') (cs : List Char) : s.run (c :: cs) = s'.run cs := by
  simp [run, hc, hs]

/-- Where blanks change nothing, a scan passes over them. -/
theorem run_blanks {s : Scan} {gap : List Char} (hs : s.step .blank = some s)
    (hgap : AllBlank gap) : s.run gap = some s := by
  induction gap with
  | nil => rfl
  | cons c gap ih =>
    obtain ⟨hc, hgap⟩ := List.forall_mem_cons.1 hgap
    rw [run_cons (Sign.ofChar?_of_isBlank hc) hs, ih hgap]

/-- Where one blank is needed, others may follow. -/
theorem run_gap {s s' : Scan} {gap : List Char} (hs : s.step .blank = some s')
    (hs' : s'.step .blank = some s') (hgap : gap ≠ [] ∧ AllBlank gap) : s.run gap = some s' := by
  obtain ⟨c, gap, rfl⟩ := List.exists_cons_of_ne_nil hgap.1
  obtain ⟨hc, hblank⟩ := List.forall_mem_cons.1 hgap.2
  rw [run_cons (Sign.ofChar?_of_isBlank hc) hs, run_blanks hs' hblank]

/-- In a number, a scan collects the digits. -/
theorem run_digits {s : Scan} (hs : ∀ ds d, step { s with digits := ds } (.digit d) =
    some { s with digits := ds ++ [d] }) (ds ds' : List Digit) :
    run { s with digits := ds } (ds'.map Digit.toChar) = some { s with digits := ds ++ ds' } := by
  induction ds' generalizing ds with
  | nil => rw [List.append_nil]; rfl
  | cons d ds' ih =>
    rw [List.map_cons, run_cons (Sign.ofChar?_toChar d) (hs ds d), ih, List.append_assoc,
      List.singleton_append]

/-- Blanks and a number behind them. -/
theorem run_number {s : Scan} {phase : Phase} {gap : List Char} {ds : List Digit}
    (hs : s.digits = []) (hblank : s.step .blank = some s)
    (hdigit : ∀ d, s.step (.digit d) = some (s.push d phase))
    (hphase : phase = .index ∨ phase = .rangeEnd) (hgap : AllBlank gap) (hds : ds ≠ []) :
    s.run (gap ++ ds.map Digit.toChar) = some { s with phase, digits := ds } := by
  obtain ⟨d, ds, rfl⟩ := List.exists_cons_of_ne_nil hds
  rw [run_append, run_blanks hblank hgap, Option.bind_some, List.map_cons,
    run_cons (Sign.ofChar?_toChar d) (hdigit d), push, hs]
  refine run_digits (s := { s with phase }) (fun ds d => ?_) [d] ds
  rcases hphase with rfl | rfl <;> rfl

/-- A scan behind an entry is ready for a comma and for the end. Only the entries are kept. -/
structure Completes (s : Scan) (es : List Extent) : Prop where
  step_comma : s.step .comma = some ⟨.comma, es, [], none⟩
  finish : s.finish? = some (.list es)

theorem completes_index (es : List Extent) {ds : List Digit} {n : Nat} (h : index? ds = some n) :
    Completes ⟨.index, es, ds, none⟩ (es ++ [.index n]) := by
  have hend := endIndex?_of_index? (s := ⟨.index, es, ds, none⟩) h
  constructor <;> simp [step, finish?, hend, finishIndex?]

theorem finishRange?_of_index? (es : List Extent) {ds : List Digit} {low high : Nat}
    (h : index? ds = some high) (hle : low ≤ high) :
    finishRange? ⟨.rangeEnd, es, ds, some low⟩ =
      some ⟨.rangeEnd, es ++ [Extent.range low high], [], none⟩ :=
  finishRange?_eq_some_iff.2 ⟨low, high, rfl, h, hle, rfl⟩

theorem completes_rangeEnd (es : List Extent) {ds : List Digit} {low high : Nat}
    (h : index? ds = some high) (hle : low ≤ high) :
    Completes ⟨.rangeEnd, es, ds, some low⟩ (es ++ [.range low high]) := by
  constructor <;> simp [step, finish?, finishRange?_of_index? es h hle]

theorem run_index {phase : Phase} (hphase : phase = .start ∨ phase = .comma) (es : List Extent)
    {before : List Char} {ds : List Digit} (hbefore : AllBlank before) (hds : ds ≠ []) :
    run ⟨phase, es, [], none⟩ (before ++ ds.map Digit.toChar) = some ⟨.index, es, ds, none⟩ := by
  rcases hphase with rfl | rfl <;>
    exact run_number rfl rfl (fun _ => rfl) (.inl rfl) hbefore hds

theorem run_afterIndex (es : List Extent) {gap : List Char} {ds : List Digit} {n : Nat}
    (hn : index? ds = some n) (hgap : gap ≠ [] ∧ AllBlank gap) :
    run ⟨.index, es, ds, none⟩ gap = some ⟨.afterIndex, es, [], some n⟩ := by
  refine run_gap ?_ rfl hgap
  simp [step, endIndex?_of_index? (s := ⟨.index, es, ds, none⟩) hn]

/-- **The scan of an entry** in a place where one may start. -/
theorem exists_run_of_written {phase : Phase} (hphase : phase = .start ∨ phase = .comma)
    (es : List Extent) {part : List Char} {e : Extent} (h : Extent.Written part e) :
    ∃ s, run ⟨phase, es, [], none⟩ part = some s ∧ s.Completes (es ++ [e]) := by
  cases h with
  | @index before digits after n hbefore hwrites hafter =>
    obtain ⟨ds, rfl, hn⟩ := writesIndex_iff.1 hwrites
    rw [← List.append_assoc, run_append, run_index hphase es hbefore (index?_eq_some_iff.1 hn).1,
      Option.bind_some]
    by_cases hempty : after = []
    · subst hempty
      exact ⟨_, rfl, completes_index es hn⟩
    · exact ⟨_, run_afterIndex es hn ⟨hempty, hafter⟩, rfl, rfl⟩
  | @range before digits gap gap' digits' after low high hbefore hwrites hgap hgap' hwrites' hle
      hafter =>
    obtain ⟨ds, rfl, hlow⟩ := writesIndex_iff.1 hwrites
    obtain ⟨ds', rfl, hhigh⟩ := writesIndex_iff.1 hwrites'
    have hto : run ⟨.afterIndex, es, [], some low⟩ ('t' :: 'o' :: gap') =
        some ⟨.rangeGap, es, [], some low⟩ := by
      rw [run_cons Sign.ofChar?_t rfl, run_cons Sign.ofChar?_o rfl]
      exact run_gap rfl rfl hgap'
    have hupper : run ⟨.rangeGap, es, [], some low⟩ (ds'.map Digit.toChar) =
        some ⟨.rangeEnd, es, ds', some low⟩ :=
      run_number rfl rfl (fun _ => rfl) (.inr rfl) (List.forall_mem_nil _)
        (index?_eq_some_iff.1 hhigh).1
    have hpart : before ++ (ds.map Digit.toChar ++
        (gap ++ 't' :: 'o' :: (gap' ++ (ds'.map Digit.toChar ++ after)))) =
        (before ++ ds.map Digit.toChar) ++
          (gap ++ ('t' :: 'o' :: gap' ++ (ds'.map Digit.toChar ++ after))) := by
      simp
    rw [hpart]
    simp only [run_append, run_index hphase es hbefore (index?_eq_some_iff.1 hlow).1,
      run_afterIndex es hlow hgap, hto, hupper, Option.bind_some]
    by_cases hempty : after = []
    · subst hempty
      exact ⟨_, rfl, completes_rangeEnd es hhigh hle⟩
    · refine ⟨⟨.afterRangeEnd, es ++ [.range low high], [], none⟩, ?_, rfl, rfl⟩
      refine run_gap ?_ rfl ⟨hempty, hafter⟩
      simp [step, finishRange?_of_index? es hhigh hle]

/-- The scan of several entries with commas between them. -/
theorem exists_run_intercalate {phase : Phase} (hphase : phase = .start ∨ phase = .comma)
    (es : List Extent) {parts : List (List Char)} {extents : List Extent}
    (h : List.Forall₂ Extent.Written parts extents) (hne : parts ≠ []) :
    ∃ s, run ⟨phase, es, [], none⟩ (List.intercalate [','] parts) = some s ∧
      s.Completes (es ++ extents) := by
  induction h generalizing phase es with
  | nil => exact absurd rfl hne
  | @cons part e parts extents hpart hparts ih =>
    obtain ⟨s, hrun, hs⟩ := exists_run_of_written hphase es hpart
    by_cases hlast : parts = []
    · subst hlast
      obtain rfl := List.forall₂_nil_left_iff.1 hparts
      rw [List.intercalate_singleton]
      exact ⟨s, hrun, hs⟩
    · obtain ⟨s', hrun', hs'⟩ := ih (.inr rfl) (es ++ [e]) hlast
      refine ⟨s', ?_, by simpa using hs'⟩
      rw [List.intercalate_cons_of_ne_nil hlast, List.append_assoc, run_append, hrun,
        Option.bind_some, List.singleton_append, run_cons Sign.ofChar?_comma hs.step_comma, hrun']

end Scan

/-! ### Subscripts -/

/-- **A subscript is read from exactly the texts that write it.** -/
theorem ofChars?_eq_some_iff {cs : List Char} {s : Subscript} :
    ofChars? cs = some s ↔ Written cs s := by
  constructor
  · intro h
    obtain ⟨scan, hrun, hfinish⟩ := Option.bind_eq_some_iff.1 h
    exact ((Scan.Scanned.start (List.forall_mem_nil _)).run hrun).written hfinish
  · intro h
    cases h with
    | @all before after hbefore hafter =>
      have hstar : Scan.run .empty (before ++ '*' :: after) = some ⟨.star, [], [], none⟩ := by
        rw [Scan.run_append, Scan.run_blanks rfl hbefore, Option.bind_some,
          Scan.run_cons Sign.ofChar?_star rfl]
        exact Scan.run_blanks rfl hafter
      rw [ofChars?, hstar]
      rfl
    | list hne hparts =>
      obtain ⟨scan, hrun, hscan⟩ := Scan.exists_run_intercalate (.inl rfl) [] hparts hne
      rw [ofChars?, Scan.empty, hrun]
      exact hscan.finish

theorem ofText?_eq_some_iff {text : String} {s : Subscript} :
    ofText? text = some s ↔ Written text.toList s :=
  ofChars?_eq_some_iff

/-- Leading zeros and any blanks are read, an index of more than 64 bits is not. -/
example : (ofText? " 007 ,\u30003\tto 18446744073709551615" =
      some (.list [.index 7, .range 3 18446744073709551615])) ∧
    ofText? "18446744073709551616" = none := by
  decide +kernel

/-- A text without its first and its last character. -/
def unbracketed (s : String) : String :=
  String.ofList s.toList.tail.dropLast

theorem unbracketed_text (s : Subscript) : unbracketed s.text = s.inside := by
  rw [unbracketed, text_eq]
  simp

/-- The normal form of the text of a subscript: what the subscript is written with. -/
def normal? (s : String) : Option String :=
  (ofText? s).map fun sub => unbracketed sub.text

theorem ofText?_unbracketed_iff {s : Subscript} :
    ofText? (unbracketed s.text) = some s ↔ s.WellFormed ∧ s.InRange := by
  rw [unbracketed_text, ofText?_eq_some_iff]
  exact ⟨Written.wellFormed, fun h => written_inside h.1 h.2⟩

/-- **The subscripts and their texts.** All elements are meant by `*` between blanks, a list by its
entries with commas between them, each with blanks around it, and there is no other text of a
subscript. A subscript is read from its own text exactly if it has an entry, its ranges do not go
backwards and its indexes have 64 bits, so reading the normal form is reading the text. -/
theorem ofText?_eq_some_iff_written :
    (∀ s, ofText? s = some .all ↔
        ∃ before after, s.toList = before ++ '*' :: after ∧ AllBlank before ∧ AllBlank after) ∧
      (∀ s extents, ofText? s = some (.list extents) ↔
        ∃ parts, s.toList = List.intercalate [','] parts ∧ parts ≠ [] ∧
          List.Forall₂ Extent.Written parts extents) ∧
      (∀ s, ofText? s = none ↔ ∀ sub, ¬Written s.toList sub) ∧
      (∀ sub, ofText? (unbracketed sub.text) = some sub ↔ sub.WellFormed ∧ sub.InRange) ∧
      ∀ s, (normal? s).bind ofText? = ofText? s := by
  refine ⟨fun s => ofText?_eq_some_iff.trans written_all_iff,
    fun s extents => ofText?_eq_some_iff.trans written_list_iff, fun s => ?_,
    fun _ => ofText?_unbracketed_iff, fun s => ?_⟩
  · rw [Option.eq_none_iff_forall_ne_some]
    exact forall_congr' fun sub => not_congr ofText?_eq_some_iff
  · rw [normal?]
    cases h : ofText? s with
    | none => rfl
    | some sub =>
      rw [Option.map_some, Option.bind_some]
      exact ofText?_unbracketed_iff.2 (ofText?_eq_some_iff.1 h).wellFormed

end DocFilter.Subscript
