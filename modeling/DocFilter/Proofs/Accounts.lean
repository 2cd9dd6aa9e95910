import DocFilter.Compiler
import DocFilter.Proofs.Assembly.Steps
import DocFilter.Proofs.Layout.Binds

/-!
# Every operand is accounted for

While a filter is built, every test pushes its operands to the end of one list. The expression is
written by a walk through the nodes that takes the operands from this list one by one. Only the
order ties the two together: the walk meets the tests in the order in which they were added, so that
it hands every test the operands that it has pushed, and takes all of them.

The operands that are not written into the expression are passed to the variables `$B0`, `$B1`, …,
which the expression mentions once each and in this order. Compiling returns this expression, and
fails only where the filter cannot be read.

## Main definitions

* `Expression.bindings`: the values of an expression with the names of their variables.
* `Expression.Accounts`: an expression accounts for the operands of a builder.

## Main results

* `Expression.accounts_of_ofConditions?`: the expression of a filter accounts for the operands that
  were pushed when the filter was built.
* `Compiler.compileBytes_accounts`: compiling returns such an expression, or the error of reading.
-/

namespace DocFilter

namespace Expression

/-- The values of an expression with the names of their variables. -/
def bindings (e : Expression) : List (String × Passing) :=
  e.passings.zipIdx.map fun (p, i) => ("B" ++ Nat.repr i, p)

/-! ### Names -/

theorem namedValues_eq (n : Nat) (ps : List Passing) :
    namedValues n ps = (named n ps).map fun binding =>
      .object [("name", .string binding.1), ("value", binding.2.value.toJson)] := by
  induction ps generalizing n with
  | nil => rfl
  | cons p ps ih => rw [namedValues, ih, named_cons, List.map_cons]

theorem passingTexts_eq (n : Nat) (ps : List Passing) :
    passingTexts n ps = (named n ps).map fun binding =>
      binding.2.conversion.placeholder ++ " as " ++ quoteIdentifier binding.1 := by
  induction ps generalizing n with
  | nil => rfl
  | cons p ps ih => rw [passingTexts, ih, named_cons, List.map_cons, passingText]

/-! ### Accounts -/

/-- An expression accounts for the operands that were pushed while a filter was built. -/
structure Accounts (features : Features) (b : Builder) (e : Expression) : Prop where
  /-- The walk through the nodes takes every operand, hands every test the operands that it has
  pushed, and passes the values to the variables `B0`, `B1`, … in order. -/
  walk : Walk.expression features b.nodes b.operands =
    .ok (some e.text, ⟨b.operands.length, e.bindings, b.pushed⟩)
  /-- The operands that are not written into the expression are passed with their conversions. -/
  passings : List.Forall₂ (fun o p => o.bind? = some p.value ∧ o.conversion = p.conversion)
    (b.operands.filter fun o => o.inline?.isNone) e.passings
  /-- Outside of strings, every variable is mentioned once, in order. -/
  parameters : (Token.ofText? e.text).map Token.parameters = some (List.range e.passings.length)
  /-- The statement assigns the values to their variables. -/
  assignments : passingTexts 0 e.passings = e.bindings.map fun binding =>
    binding.2.conversion.placeholder ++ " as " ++ quoteIdentifier binding.1
  /-- So does the expression as a document. -/
  namedValues : namedValues 0 e.passings = e.bindings.map fun binding =>
    .object [("name", .string binding.1), ("value", binding.2.value.toJson)]

/-- **The expression of a filter accounts for the operands that were pushed when it was built.** -/
theorem accounts_of_ofConditions? {features : Features} {f : Filter}
    (hwf : Condition.AllWellFormed f.conditions) {e : Expression}
    (he : ofConditions? features f.conditions = some e) : e.Accounts features (.ofFilter f) := by
  have hwalk := Walk.expression_eq_ok features hwf
  rw [he] at hwalk
  unfold ofConditions? at he
  split at he
  · cases he
  · next hempty =>
    have hne : Condition.phrases features 0 f.conditions ≠ [] :=
      Condition.phrases_ne_nil (by simpa using hempty)
    have hpassings := Condition.renderAll_snd features 0 f.conditions
    obtain rfl := Option.some.inj he
    refine ⟨?_, ?_, ?_, passingTexts_eq 0 _, namedValues_eq 0 _⟩
    · rw [← hpassings] at hwalk
      exact hwalk
    · dsimp only
      rw [hpassings]
      exact Operand.forall₂_passings _
    · have hspells :=
        Junction.and.spells_join hne (Condition.spells_renderAll features 0 f.conditions hwf)
      have hparameters := Condition.parameters_phrases features 0 f.conditions hwf
      rw [← Junction.and.parameters_join hne, ← hpassings] at hparameters
      have htokens := Token.ofText?_of_spells hspells
      rw [List.range_eq_range']
      exact (congrArg (Option.map Token.parameters) htokens).trans (congrArg some hparameters)

end Expression

/-! ### Whole filters -/

theorem Filter.exists_ofJson_of_ofBytes {bytes : ByteArray} {f : Filter}
    (h : Filter.ofBytes bytes = .ok f) : ∃ d, Filter.ofJson d = .ok f := by
  unfold Filter.ofBytes at h
  split at h
  · next d _ => exact ⟨d, h⟩
  · cases h

theorem Compiler.compileBytes_eq_map (c : Compiler) (bytes : ByteArray) :
    c.compileBytes bytes = (Filter.ofBytes bytes).map c.compile := by
  rw [compileBytes, Filter.ofBytes]
  cases Json.ofBytes? bytes <;> rfl

/-- **Compiling fails only where reading does, and every operand is accounted for.** A filter that
can be read is built step by step with the same outcome. What is compiled has the expression of the
filter for the engine, and for an engine of either level the walk that takes the operands one by one
never meets a mismatch and hands every test the operands that were pushed when it was added. -/
theorem Compiler.compileBytes_accounts (c : Compiler) (bytes : ByteArray) :
    match Filter.ofBytes bytes with
    | .error error => c.compileBytes bytes = .error error ∧ Builder.ofBytes bytes = .error error
    | .ok f =>
      ∃ compiled b, c.compileBytes bytes = .ok compiled ∧ Builder.ofBytes bytes = .ok b ∧
        b.toAssembly = .ofFilter f ∧
        compiled.expression = Expression.ofConditions? c.config.features f.conditions ∧
        ∀ features : Features,
          match Expression.ofConditions? features f.conditions with
          | none => Walk.expression features b.nodes b.operands = .ok (none, ⟨0, [], []⟩) ∧
              b.operands = [] ∧ b.pushed = []
          | some e => e.Accounts features b := by
  rw [compileBytes_eq_map, Builder.ofBytes_eq_map]
  cases hf : Filter.ofBytes bytes with
  | error error => exact ⟨rfl, rfl⟩
  | ok f =>
    obtain ⟨d, hd⟩ := Filter.exists_ofJson_of_ofBytes hf
    have hwf := Filter.allWellFormed_conditions hd
    refine ⟨c.compile f, .ofFilter f, rfl, rfl, rfl, rfl, fun features => ?_⟩
    cases he : Expression.ofConditions? features f.conditions with
    | some e => exact Expression.accounts_of_ofConditions? hwf he
    | none =>
      have hempty : f.conditions = [] := by
        unfold Expression.ofConditions? at he
        split at he
        · next hempty => exact List.isEmpty_iff.1 hempty
        · cases he
      have hwalk := Walk.expression_eq_ok features hwf
      simp only [Builder.ofFilter, Assembly.ofFilter, Filter.operands]
      rw [hempty] at hwalk ⊢
      exact ⟨hwalk, rfl, rfl⟩

end DocFilter
