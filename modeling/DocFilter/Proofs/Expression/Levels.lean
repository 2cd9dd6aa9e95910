import DocFilter.Proofs.Expression.Rendition

/-!
# Expressions at the two feature levels

The conditions of a filter have an expression for legacy and one for modern engines. Both pass the
same values to the same variables. Their texts are made of the same pieces, except where a test for
membership has several operands: there the modern text has `in` and the legacy text spells out the
equations.

## Main definitions

* `Membership`: a comparison with one of several operands, and its spellings.
* `Piece`: a part of a text, which the levels share or spell differently.
* `memberships`: the tests for membership with several operands.

## Main results

* `Condition.agrees_render`: the texts of a condition differ in its memberships only.
* `Expression.ofConditions?_levels`: the expressions of the two levels.
-/

namespace DocFilter

/-! ### Pieces of a text -/

/-- A comparison of the values of a path with one of several operands. -/
structure Membership where
  predicate : String
  operands : List String
deriving DecidableEq, Repr

/-- The comparison as the engines of a level understand it. -/
def Membership.spell (m : Membership) : Features → String
  | .modern => m.predicate ++ " in (" ++ String.intercalate "," m.operands ++ ")"
  | .legacy =>
    "(" ++ String.intercalate " || " (m.operands.map fun o => m.predicate ++ " == " ++ o) ++ ")"

/-- A part of the text of an expression. -/
inductive Piece where
  /-- The same text at both levels. -/
  | shared (text : String)
  | membership (m : Membership)
deriving DecidableEq, Repr

namespace Piece

/-- The text of a piece at a level. -/
def spell (features : Features) : Piece → String
  | shared text => text
  | membership m => m.spell features

/-- The text of some pieces in a row. -/
def spellAll (features : Features) (pieces : List Piece) : String :=
  String.join (pieces.map (spell features))

/-- The membership that a piece is. -/
def membership? : Piece → Option Membership
  | shared _ => none
  | membership m => some m

theorem spellAll_append (features : Features) (ps qs : List Piece) :
    spellAll features (ps ++ qs) = spellAll features ps ++ spellAll features qs := by
  rw [spellAll, List.map_append, String.join_append]
  rfl

end Piece

/-- The texts of the two levels differ in some memberships only, which stand in them in this
order. -/
def Agrees (text : Features → String) (ms : List Membership) : Prop :=
  ∃ pieces : List Piece, (∀ features, text features = Piece.spellAll features pieces) ∧
    pieces.filterMap Piece.membership? = ms

namespace Agrees

theorem shared (s : String) : Agrees (fun _ => s) [] :=
  ⟨[.shared s], fun _ => by simp [Piece.spellAll, Piece.spell], rfl⟩

theorem membership (m : Membership) : Agrees m.spell [m] :=
  ⟨[.membership m], fun _ => by simp [Piece.spellAll, Piece.spell], rfl⟩

theorem append {t u : Features → String} {ms ns : List Membership} (ht : Agrees t ms)
    (hu : Agrees u ns) : Agrees (fun features => t features ++ u features) (ms ++ ns) := by
  obtain ⟨ps, hps, rfl⟩ := ht
  obtain ⟨qs, hqs, rfl⟩ := hu
  refine ⟨ps ++ qs, fun features => ?_, List.filterMap_append⟩
  simp only [hps, hqs, Piece.spellAll_append]

/-- Text around a text changes no membership. -/
theorem enclose {t : Features → String} {ms : List Membership} (before after : String)
    (h : Agrees t ms) : Agrees (fun features => before ++ t features ++ after) ms := by
  simpa using ((shared before).append h).append (shared after)

end Agrees

/-- The texts of some conditions at the two levels. -/
inductive AgreesAll : (Features → List String) → List Membership → Prop
  | nil : AgreesAll (fun _ => []) []
  | cons {t : Features → String} {ts : Features → List String} {ms ns : List Membership} :
      Agrees t ms → AgreesAll ts ns →
        AgreesAll (fun features => t features :: ts features) (ms ++ ns)

theorem AgreesAll.intercalate (separator : String) {ts : Features → List String}
    {ms : List Membership} (h : AgreesAll ts ms) :
    Agrees (fun features => String.intercalate separator (ts features)) ms := by
  induction h with
  | nil => exact Agrees.shared ""
  | @cons t ts ms ns ht hts ih =>
    cases hts with
    | nil => simpa using ht
    | cons hu hus =>
      simpa [String.intercalate_cons_cons, String.append_assoc] using
        (ht.append (Agrees.shared separator)).append ih

/-! ### Tests -/

theorem Operand.length_renderAll (next : Nat) (os : List Operand) :
    (renderAll next os).1.length = os.length := by
  rw [(spells_renderAll next os).length_eq, List.length_map, length_references]

/-- The memberships with several operands among some tests, where `next` is the first free
variable. -/
def memberships (next : Nat) : List (Path × Test) → List Membership
  | [] => []
  | (path, t) :: rest =>
    let (operands, passings) := Operand.renderAll next t.operands
    (if t.relation = .oneOf ∧ 1 < t.operands.length then [⟨t.predicate path, operands⟩] else []) ++
      memberships (next + passings.length) rest

theorem memberships_append (next : Nat) (xs ys : List (Path × Test)) :
    memberships next (xs ++ ys) =
      memberships next xs ++
        memberships (next + (xs.flatMap fun (_, t) => t.operands.flatMap Operand.passings).length)
          ys := by
  induction xs generalizing next with
  | nil => rfl
  | cons x xs ih =>
    obtain ⟨path, t⟩ := x
    simp only [List.cons_append, memberships, ih, List.append_assoc, Operand.renderAll_snd,
      List.flatMap_cons, List.length_append, Nat.add_assoc]

/-- Several operands are written down for every membership. -/
theorem one_lt_of_mem_memberships {next : Nat} {leaves : List (Path × Test)} {m : Membership}
    (h : m ∈ memberships next leaves) : 1 < m.operands.length := by
  induction leaves generalizing next with
  | nil => cases h
  | cons leaf leaves ih =>
    obtain ⟨path, t⟩ := leaf
    rw [memberships, List.mem_append] at h
    refine h.elim (fun h => ?_) ih
    split at h
    · next ht =>
      obtain rfl := List.mem_singleton.1 h
      simpa [Operand.length_renderAll] using ht.2
    · cases h

theorem memberships_eq_nil_iff {next : Nat} {leaves : List (Path × Test)} :
    memberships next leaves = [] ↔
      ∀ leaf ∈ leaves, leaf.2.relation = .oneOf → leaf.2.operands.length ≤ 1 := by
  induction leaves generalizing next with
  | nil => exact ⟨nofun, fun _ => rfl⟩
  | cons leaf leaves ih =>
    obtain ⟨path, t⟩ := leaf
    rw [memberships, List.append_eq_nil_iff, ih, List.forall_mem_cons]
    refine and_congr_left fun _ => ?_
    simp

namespace Test

theorem body_oneOf (features : Features) (predicate : String) {operands : List String}
    (h : 1 < operands.length) :
    body features predicate .oneOf operands = Membership.spell ⟨predicate, operands⟩ features := by
  match operands, h with
  | o :: o' :: os, _ => cases features <;> rfl

/-- Every other test has one text. -/
theorem body_eq_of_not (features : Features) (predicate : String) {relation : Relation}
    {operands : List String} (h : ¬(relation = .oneOf ∧ 1 < operands.length)) :
    body features predicate relation operands = body .modern predicate relation operands := by
  cases features with
  | modern => rfl
  | legacy =>
    match operands, h with
    | [], _ => cases relation <;> rfl
    | [_], _ => cases relation <;> rfl
    | _ :: _ :: _, h =>
      cases relation with
      | oneOf => exact absurd ⟨rfl, by simp⟩ h
      | _ => rfl

theorem agrees_body (next : Nat) (path : Path) (t : Test) :
    Agrees
      (fun features =>
        body features (t.predicate path) t.relation (Operand.renderAll next t.operands).1)
      (memberships next [(path, t)]) := by
  have hlength := Operand.length_renderAll next t.operands
  by_cases h : t.relation = .oneOf ∧ 1 < t.operands.length
  · have hsome : memberships next [(path, t)] =
        [⟨t.predicate path, (Operand.renderAll next t.operands).1⟩] := by
      simp only [memberships, if_pos h, List.append_nil]
    rw [hsome]
    simp only [h.1, body_oneOf _ _ (hlength ▸ h.2)]
    exact Agrees.membership _
  · have hnone : memberships next [(path, t)] = [] := by
      simp only [memberships, if_neg h, List.append_nil]
    rw [hnone]
    simp only [fun features => body_eq_of_not features (t.predicate path) (hlength ▸ h)]
    exact Agrees.shared _

/-- The texts of a test differ if it is for membership in a list. -/
theorem agrees_render (next : Nat) (path : Path) (t : Test) :
    Agrees (fun features => (t.render features next path).1) (memberships next [(path, t)]) := by
  by_cases hrelation : t.relation = .present
  · have hnone : memberships next [(path, t)] = [] := by simp [memberships, hrelation]
    rw [hnone]
    simpa only [render, if_pos hrelation] using Agrees.shared _
  · have hbody := agrees_body next path t
    by_cases hnegated : t.negated
    · simpa only [render, if_neg hrelation, if_pos hnegated] using hbody.enclose "(!(" "))"
    · simpa only [render, if_neg hrelation, if_neg hnegated] using hbody

end Test

/-! ### Conditions -/

namespace Condition

/-- A group only puts text around its children. -/
theorem exists_wrap_eq (negated : Bool) (children : List Condition) :
    ∃ before after, ∀ joined, wrap negated children joined = before ++ joined ++ after := by
  unfold wrap
  split_ifs
  · exact ⟨"(!", ")", fun _ => rfl⟩
  · exact ⟨"(!(", "))", fun _ => rfl⟩
  · exact ⟨"", "", fun _ => by simp⟩
  · exact ⟨"(", ")", fun _ => rfl⟩

mutual

/-- **The texts of a condition differ in its memberships only.** -/
theorem agrees_render (next : Nat) : (c : Condition) →
    Agrees (fun features => (c.render features next).1) (memberships next c.leaves)
  | leaf path t => by
      simpa only [render, leaves] using t.agrees_render next path
  | group j negated children => by
      obtain ⟨before, after, hwrap⟩ := exists_wrap_eq negated children
      have hjoined := (agreesAll_renderAll next children).intercalate (separator j)
      simpa only [render, hwrap, leaves] using hjoined.enclose before after
  | within path children => by
      have hjoined := (agreesAll_renderAll next children).intercalate " && "
      simpa only [render, leaves] using
        hjoined.enclose ("exists(" ++ path.queryEach '@' ++ "?(") "))"

theorem agreesAll_renderAll (next : Nat) : (cs : List Condition) →
    AgreesAll (fun features => (renderAll features next cs).1) (memberships next (leavesOfAll cs))
  | [] => by
      simpa only [renderAll, leavesOfAll, memberships] using AgreesAll.nil
  | c :: cs => by
      have hpassings : c.passings =
          c.leaves.flatMap fun (_, t) => t.operands.flatMap Operand.passings := by
        simp [passings, operands, leavesOfAll, List.flatMap_assoc]
      rw [leavesOfAll, memberships_append, ← hpassings]
      simpa only [renderAll, render_snd] using
        AgreesAll.cons (agrees_render next c) (agreesAll_renderAll (next + c.passings.length) cs)

end

end Condition

/-! ### Equal texts -/

/-- Every operand costs an equation more characters than a list. -/
theorem length_equations_le (predicate : String) (o : String) (os : List String) :
    (String.intercalate "," (o :: os)).length + predicate.length + 4 + 7 * os.length ≤
      (String.intercalate " || " ((o :: os).map fun o => predicate ++ " == " ++ o)).length := by
  have hequals : " == ".length = 4 := rfl
  induction os generalizing o with
  | nil =>
    simp only [List.map_cons, List.map_nil, String.intercalate_singleton, String.length_append,
      List.length_nil]
    omega
  | cons o' os ih =>
    have hrest := ih o'
    have hseparator : " || ".length = 4 := rfl
    have hcomma : ",".length = 1 := rfl
    simp only [List.map_cons, String.intercalate_cons_cons, String.length_append,
      List.length_cons] at hrest ⊢
    omega

theorem Membership.length_spell_lt {m : Membership} (h : 1 < m.operands.length) :
    (m.spell .modern).length < (m.spell .legacy).length := by
  obtain ⟨predicate, operands⟩ := m
  match operands, h with
  | o :: o' :: os, _ =>
    have hle := length_equations_le predicate o (o' :: os)
    have hin : " in (".length = 5 := rfl
    have hopen : "(".length = 1 := rfl
    have hclose : ")".length = 1 := rfl
    simp only [spell, String.length_append, List.length_cons] at hle ⊢
    omega

/-- The legacy text is longer by a character at least for each membership. -/
theorem Piece.length_spellAll_le {pieces : List Piece}
    (h : ∀ m ∈ pieces.filterMap membership?, 1 < m.operands.length) :
    (spellAll .modern pieces).length + (pieces.filterMap membership?).length ≤
      (spellAll .legacy pieces).length := by
  induction pieces with
  | nil => exact le_rfl
  | cons piece pieces ih =>
    cases piece with
    | shared text =>
      have hrest := ih h
      simp only [spellAll, List.map_cons, String.join_cons, String.length_append, spell,
        List.filterMap_cons, membership?] at hrest ⊢
      omega
    | membership m =>
      obtain ⟨hm, hms⟩ := List.forall_mem_cons.1 h
      have hlt := Membership.length_spell_lt hm
      have hrest := ih hms
      simp only [spellAll, List.map_cons, String.join_cons, String.length_append, spell,
        List.filterMap_cons, membership?, List.length_cons] at hrest ⊢
      omega

/-- The texts of the two levels are equal if there is no membership, and only then. -/
theorem Piece.spellAll_eq_iff {pieces : List Piece}
    (h : ∀ m ∈ pieces.filterMap membership?, 1 < m.operands.length) :
    spellAll .legacy pieces = spellAll .modern pieces ↔ pieces.filterMap membership? = [] := by
  constructor
  · intro heq
    have hle := length_spellAll_le h
    rw [heq] at hle
    exact List.eq_nil_of_length_eq_zero (by omega)
  · intro hnone
    have hspell : ∀ piece ∈ pieces, piece.spell .legacy = piece.spell .modern := by
      intro piece hpiece
      cases piece with
      | shared text => rfl
      | membership m => exact absurd (List.filterMap_eq_nil_iff.1 hnone _ hpiece) nofun
    rw [spellAll, spellAll, List.map_congr_left hspell]

namespace Expression

/-- **The expressions of the two levels.** For every list of conditions, both levels have none or
both have one, with the same values in the same order. The texts are made of the same pieces, where
every test for membership in a list of several operands is a piece of its own and spelled by the
level, and they are equal exactly if no test is for membership in such a list. -/
theorem ofConditions?_levels (cs : List Condition) :
    (ofConditions? .legacy cs = none ∧ ofConditions? .modern cs = none) ∨
      ∃ legacy modern pieces,
        ofConditions? .legacy cs = some legacy ∧ ofConditions? .modern cs = some modern ∧
        legacy.passings = modern.passings ∧
        legacy.text = Piece.spellAll .legacy pieces ∧
        modern.text = Piece.spellAll .modern pieces ∧
        pieces.filterMap Piece.membership? = memberships 0 (Condition.leavesOfAll cs) ∧
        (legacy.text = modern.text ↔
          ∀ leaf ∈ Condition.leavesOfAll cs,
            leaf.2.relation = .oneOf → leaf.2.operands.length ≤ 1) := by
  cases cs with
  | nil => exact .inl ⟨rfl, rfl⟩
  | cons c cs =>
    obtain ⟨pieces, htext, hpieces⟩ :=
      (Condition.agreesAll_renderAll 0 (c :: cs)).intercalate " && "
    have hseveral : ∀ m ∈ pieces.filterMap Piece.membership?, 1 < m.operands.length := by
      rw [hpieces]
      exact fun m => one_lt_of_mem_memberships
    have hequal : Piece.spellAll .legacy pieces = Piece.spellAll .modern pieces ↔
        ∀ leaf ∈ Condition.leavesOfAll (c :: cs),
          leaf.2.relation = .oneOf → leaf.2.operands.length ≤ 1 := by
      rw [Piece.spellAll_eq_iff hseveral, hpieces, memberships_eq_nil_iff]
    rw [← htext .legacy, ← htext .modern] at hequal
    have hpassings := fun features => Condition.renderAll_snd features 0 (c :: cs)
    exact .inr ⟨_, _, pieces, rfl, rfl, (hpassings .legacy).trans (hpassings .modern).symm,
      htext .legacy, htext .modern, hpieces, hequal⟩

end Expression

end DocFilter
