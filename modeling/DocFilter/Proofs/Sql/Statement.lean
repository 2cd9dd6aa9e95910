import DocFilter.Compiler
import DocFilter.Proofs.Sql.Paths
import DocFilter.Proofs.Sql.Scan

/-!
# Closed statements

The restrictions and the sort order that a compiler writes for an accepted filter are closed, and
the restrictions have as many placeholders as values. Names of fields and columns reach the
statement inside literals and identifiers only; strings, numbers, units and geometries reach it as
values of placeholders.

## Main definitions

* `Fragment.Balanced`: a closed text with as many placeholders as values.

## Main results

* `Expression.balanced_fragment`, `Comparison.balanced_render`, `Spatial.balanced_render`,
  `TextSearch.balanced_render`, `balanced_of_renderKeys`: the fragments are balanced.
* `SortSpec.closed_render`: a sort order is closed and has no placeholder.
* `Compiler.closed_compileJson`: the statements of a compiler are closed.
-/

namespace DocFilter

/-- Whether the text of a fragment is closed and has a placeholder for each of its values. -/
def Fragment.Balanced (f : Fragment) : Prop :=
  Closed f.sql f.binds.length

/-! ### Parts of fragments -/

variable {column : String} (hcolumn : '"' ∉ column.toList)

include hcolumn in
/-- A call up to the end of the path inside its second argument, the literal that `opening`
opens. -/
theorem scans_call {function opening path : String} (hfunction : Scans .code function .code 0)
    (hopening : Scans .code opening .literal 0) (hpath : Quotable path) :
    Scans .code (function ++ quoteIdentifier column ++ opening ++ path) .literal 0 :=
  ((hfunction.append (scans_quoteIdentifier hcolumn)).append hopening).append (scans_literal hpath)

theorem scans_comma_apostrophe : Scans .code ", '" .literal 0 :=
  rfl

theorem scans_apostrophe : Scans .literal "'" .closing 0 :=
  rfl

theorem scans_comma : Scans .code ", " .code 0 :=
  rfl

theorem scans_blank : Scans .code " " .code 0 :=
  rfl

/-- The clause that names the type of a value, if there is one. -/
theorem scans_returning : {type? : Option String} → (∀ type ∈ type?, Scans .code type .code 0) →
    ∃ r : Region, r.isOutside = true ∧
      Scans .closing (match type? with
        | some type => " RETURNING " ++ type
        | none => "") r 0
  | none, _ => ⟨.closing, rfl, rfl⟩
  | some type, h => by
      have hreturning : Scans .closing " RETURNING " .code 0 := rfl
      exact ⟨.code, rfl, hreturning.append (h type rfl)⟩

include hcolumn in
/-- A single value of a document, converted if a type is given. -/
theorem scans_value {path : String} (hpath : Quotable path) {type? : Option String} :
    (∀ type ∈ type?, Scans .code type .code 0) →
      ∃ r : Region, r.isOutside = true ∧
        Scans .code ("JSON_VALUE(" ++ quoteIdentifier column ++ ", '" ++ path ++ "'" ++
          (match type? with
            | some type => " RETURNING " ++ type
            | none => "")) r 0 := by
  intro htype
  have hfunction : Scans .code "JSON_VALUE(" .code 0 := rfl
  have hcall := scans_call hcolumn hfunction scans_comma_apostrophe hpath
  obtain ⟨r, hr, hreturning⟩ := scans_returning htype
  exact ⟨r, hr, (hcall.append scans_apostrophe).append hreturning⟩

/-- A conversion has one placeholder. -/
theorem Conversion.scans_placeholder (c : Conversion) : Scans .code c.placeholder .code 1 := by
  cases c <;> decide +kernel

theorem Modifier.scans_returning? (m : Modifier) :
    ∀ type ∈ m.returning?, Scans .code type .code 0 := by
  intro type htype
  cases m <;> cases htype <;> rfl

theorem ErrorMode.scans_onError (mode : ErrorMode) : Scans .code mode.onError .code 0 := by
  cases mode <;> rfl

/-! ### The filter expression -/

namespace Expression

theorem closed_passingText (n : Nat) (p : Passing) : Closed (passingText n p) 1 := by
  have has : Scans .code " as " .code 0 := rfl
  have hname : '"' ∉ (variableName n).toList := by
    intro h
    rw [variableName, String.toList_append, Nat.toList_repr] at h
    rcases List.mem_append.1 h with h | h
    · exact absurd h (by decide)
    · exact absurd (Nat.isDigit_of_mem_toDigits (by decide) (by decide) h) (by decide)
  have hplaceholder := p.conversion.scans_placeholder
  exact ((hplaceholder.append has).append (scans_quoteIdentifier hname)).closed rfl

theorem closed_passingTexts : (n : Nat) → (ps : List Passing) →
    ∀ s ∈ passingTexts n ps, Closed s 1
  | _, [] => nofun
  | n, p :: ps => List.forall_mem_cons.2
      ⟨closed_passingText n p, closed_passingTexts (n + 1) ps⟩

theorem length_passingTexts : (n : Nat) → (ps : List Passing) →
    (passingTexts n ps).length = ps.length
  | _, [] => rfl
  | n, _ :: ps => congrArg (· + 1) (length_passingTexts (n + 1) ps)

/-- The list of assignments behind the expression, if there are any. -/
theorem scans_passings (ps : List Passing) :
    ∃ r : Region, r.isOutside = true ∧
      Scans .closing (if ps.isEmpty then ""
        else " passing " ++ String.intercalate ", " (passingTexts 0 ps)) r ps.length := by
  split
  · next hempty =>
    rw [List.isEmpty_iff.1 hempty]
    exact ⟨.closing, rfl, rfl⟩
  · have hpassing : Scans .closing " passing " .code 0 := rfl
    obtain ⟨r, hr, htexts⟩ :=
      (closed_intercalate_of_forall scans_comma (by decide) (closed_passingTexts 0 ps)).scans
    rw [length_passingTexts, Nat.mul_one] at htexts
    have hall := hpassing.append htexts
    rw [Nat.zero_add] at hall
    exact ⟨r, hr, hall⟩

include hcolumn in
/-- **The restriction by an expression is balanced,** if the expression may stand in a literal. -/
theorem balanced_fragment {e : Expression} (h : Quotable e.text) :
    (e.fragment column).Balanced := by
  have hfunction : Scans .code "JSON_EXISTS(" .code 0 := rfl
  have hopening : Scans .code ", '$?(" .literal 0 := rfl
  have hclosing : Scans .literal ")'" .closing 0 := rfl
  have hcall := (scans_call hcolumn hfunction hopening h).append hclosing
  obtain ⟨r, hr, hpassings⟩ := scans_passings e.passings
  have hclose : Scans .code ")" .code 0 := rfl
  have hall := (hcall.append hpassings).append_zero (hclose.of_outside (by decide) hr)
  rw [Nat.zero_add] at hall
  rw [← List.length_map Passing.value] at hall
  unfold Fragment.Balanced fragment
  exact hall.closed rfl

/-- An expression of well-formed conditions may stand in a literal. -/
theorem quotable_of_ofConditions? {features : Features} {cs : List Condition}
    (hcs : Condition.AllWellFormed cs) {e : Expression} (he : ofConditions? features cs = some e) :
    Quotable e.text := by
  unfold ofConditions? at he
  split at he
  · cases he
  · next hempty =>
    obtain rfl := Option.some.inj he
    have hne : Condition.phrases features 0 cs ≠ [] :=
      Condition.phrases_ne_nil (by simpa using hempty)
    exact (Junction.and.spells_join hne (Condition.spells_renderAll features 0 cs hcs)).quotable

end Expression

/-! ### Restrictions beside the conditions -/

include hcolumn in
theorem balanced_of_renderKeys {keys : List Bind} {f : Fragment}
    (h : renderKeys column keys = some f) : f.Balanced := by
  have hname := scans_quoteIdentifier hcolumn
  unfold renderKeys at h
  split at h
  · cases h
  · obtain rfl := Option.some.inj h
    have hequals : Scans .code " = ?" .code 1 := rfl
    exact (hname.append hequals).closed rfl
  · obtain rfl := Option.some.inj h
    have hopen : Scans .code " in (" .code 0 := rfl
    have hclose : Scans .code ")" .code 0 := rfl
    have hmarks : ∀ s ∈ keys.map fun _ => "?", Closed s 1 := by
      intro s hs
      obtain ⟨key, -, rfl⟩ := List.mem_map.1 hs
      exact ⟨rfl, rfl⟩
    obtain ⟨r, hr, hlist⟩ := (closed_intercalate_of_forall scans_comma (by decide) hmarks).scans
    rw [List.length_map, Nat.mul_one] at hlist
    have hall := ((hname.append hopen).append hlist).append_zero
      (hclose.of_outside (by decide) hr)
    rw [Nat.zero_add] at hall
    exact hall.closed rfl

namespace Comparison

theorem balanced_operandFragment (o : Operand) : (operandFragment o).Balanced := by
  unfold operandFragment
  split
  · next b _ => cases b <;> exact ⟨rfl, rfl⟩
  · exact o.conversion.scans_placeholder.closed rfl
  · exact ⟨rfl, rfl⟩

theorem scans_returningType? (c : Comparison) :
    ∀ type ∈ c.returningType?, Scans .code type .code 0 := by
  intro type htype
  unfold returningType? at htype
  split at htype
  · next type' hreturning =>
    obtain rfl := Option.some.inj htype
    obtain ⟨m, -, hm⟩ := Option.bind_eq_some_iff.1 hreturning
    exact m.scans_returning? _ hm
  · split at htype
    · obtain rfl := Option.some.inj htype
      decide +kernel
    · cases htype

theorem scans_op (op : ComparisonOp) : Scans .code op.sql .code 0 := by
  cases op <;> rfl

include hcolumn in
theorem balanced_render {c : Comparison} (h : c.path.Writable) : (c.render column).Balanced := by
  obtain ⟨r, hr, hvalue⟩ := scans_value hcolumn (Path.quotable_singleton h false)
    c.scans_returningType?
  have hmodes : Scans .code " ERROR ON ERROR NULL ON EMPTY) " .code 0 := rfl
  have hleft := ((hvalue.append (hmodes.of_outside (by decide) hr)).append
    (scans_op c.op)).append scans_blank
  have hright : Closed (operandFragment c.operand).sql (operandFragment c.operand).binds.length :=
    balanced_operandFragment c.operand
  unfold Fragment.Balanced render
  exact hright.prepend hleft

end Comparison

include hcolumn in
theorem Spatial.balanced_render {s : Spatial} (h : s.path.Writable) :
    (s.render column).Balanced := by
  have hfunction : Scans .code (s.relation.function ++ "(JSON_VALUE(") .code 0 := by
    cases s.relation <;> rfl
  have hcall := scans_call hcolumn hfunction scans_comma_apostrophe (s.mode.quotable_pathText h)
  have hgeometry : Scans .literal "' RETURNING SDO_GEOMETRY " .code 0 := rfl
  have hplaceholder : Scans .code
      " NULL ON EMPTY), JSON_VALUE(?, '$' RETURNING SDO_GEOMETRY ERROR ON ERROR)" .code 1 := by
    decide +kernel
  have hsql := ((hcall.append hgeometry).append s.mode.scans_onError).append hplaceholder
  unfold Spatial.render
  dsimp only
  split
  · have hclose : Scans .code ", ?) = 'TRUE'" .closing 1 := rfl
    exact (hsql.append hclose).closed rfl
  · have hclose : Scans .code ") = 'TRUE'" .closing 0 := rfl
    exact (hsql.append hclose).closed rfl

include hcolumn in
theorem TextSearch.balanced_render {t : TextSearch} (h : t.path.Writable) :
    (t.render column).Balanced := by
  have hfunction : Scans .code "JSON_TEXTCONTAINS(" .code 0 := rfl
  have hcall := scans_call hcolumn hfunction scans_comma_apostrophe
    (Path.quotable_singleton h false)
  have hclose : Scans .literal "', ?)" .code 1 := rfl
  exact (hcall.append hclose).closed rfl

/-! ### Sort orders -/

theorem Direction.scans_sql (d : Direction) : Scans .code d.sql .code 0 := by
  cases d <;> rfl

/-- The type of strings of a bounded length. -/
theorem scans_varchar (maxLength : Nat) :
    Scans .code ("VARCHAR2(" ++ Nat.repr maxLength ++ ")") .code 0 := by
  have hopen : Scans .code "VARCHAR2(" .code 0 := rfl
  have hclose : Scans .code ")" .code 0 := rfl
  exact (hopen.append (scans_repr maxLength)).append hclose

theorem SortType.scans_returning (maxLength : Option Nat) :
    (type : SortType) → Scans .code (type.returning maxLength) .code 0
  | varchar => scans_varchar (maxLength.getD 4000)
  | number => show Scans .code "NUMBER" .code 0 from rfl
  | date => show Scans .code "DATE" .code 0 from rfl
  | timestamp => show Scans .code "TIMESTAMP" .code 0 from rfl

namespace SortEntry

theorem scans_returning? (e : SortEntry) : ∀ type ∈ e.returning?, Scans .code type .code 0 := by
  intro text htext
  unfold returning? at htext
  split at htext
  · obtain rfl := Option.some.inj htext
    exact SortType.scans_returning _ _
  · obtain rfl := Option.some.inj htext
    exact scans_varchar _
  · cases htext

include hcolumn in
theorem closed_render (mode : ErrorMode) {e : SortEntry} (h : e.path.Writable) :
    Closed (e.render column mode) 0 := by
  obtain ⟨r, hr, hvalue⟩ := scans_value hcolumn (e.quotable_pathText mode h) e.scans_returning?
  have hclose : Scans .code ") " .code 0 := rfl
  have hall := (((hvalue.append (scans_blank.of_outside (by decide) hr)).append
    mode.scans_onError).append hclose).append e.direction.scans_sql
  exact hall.closed rfl

end SortEntry

namespace SortSpec

/-- The key column alone is closed. -/
theorem closed_of_keyColumn? {spec : SortSpec} {key : KeyColumn} {strict : Bool} {sql : String}
    (hkey : '"' ∉ key.column.toList) (h : spec.keyColumn? key strict = some sql) :
    Closed sql 0 := by
  unfold keyColumn? at h
  split at h
  · next e _ =>
    split at h
    · obtain rfl := Option.some.inj h
      have hname := scans_quoteIdentifier hkey
      exact ((hname.append scans_blank).append e.direction.scans_sql).closed rfl
    · cases h
  · cases h

include hcolumn in
/-- **A sort order is closed and has no placeholder.** -/
theorem closed_render {key : Option KeyColumn} (hkey : ∀ k ∈ key, '"' ∉ k.column.toList)
    (strict : Bool) {spec : SortSpec} (h : ∀ e ∈ spec.entries, e.path.Writable) :
    Closed (spec.render column key strict) 0 := by
  unfold render
  split
  · next sql hsql =>
    obtain ⟨k, hk, hsql⟩ := Option.bind_eq_some_iff.1 hsql
    exact closed_of_keyColumn? (hkey k hk) hsql
  · have hentries : ∀ s ∈ spec.entries.map (SortEntry.render column spec.mode), Closed s 0 := by
      intro s hs
      obtain ⟨e, he, rfl⟩ := List.mem_map.1 hs
      exact SortEntry.closed_render hcolumn spec.mode (h e he)
    exact closed_intercalate_of_forall scans_comma (by decide) hentries

end SortSpec

/-! ### Compilers -/

theorem Fragment.balanced_of_join {fragments : List Fragment} (h : ∀ f ∈ fragments, f.Balanced)
    {joined : Fragment} (hjoined : Fragment.join " AND " fragments = some joined) :
    joined.Balanced := by
  have hand : Scans .code " AND " .code 0 := rfl
  have htexts : List.Forall₂ (fun s bs => Closed s bs.length) (fragments.map sql)
      (fragments.map binds) := by
    rw [List.forall₂_map_left_iff, List.forall₂_map_right_iff, List.forall₂_same]
    exact h
  unfold Fragment.join at hjoined
  split at hjoined
  · cases hjoined
  · obtain rfl := Option.some.inj hjoined
    unfold Balanced
    rw [List.flatMap_def]
    exact closed_intercalate hand (by decide) htexts

/-- What a valid configuration guarantees. -/
theorem Config.of_validate {config : Config} (h : config.validate = .ok ()) :
    '"' ∉ config.contentColumn.toList ∧ '"' ∉ config.keyColumn.toList ∧
      ∃ path, config.idPath = .ok path := by
  have hidentifier {name : String} (hname : ¬(!isIdentifier name) = true) : '"' ∉ name.toList := by
    rw [Bool.not_eq_true', Bool.not_eq_false, isIdentifier, Bool.and_eq_true] at hname
    simpa using hname.2
  unfold validate at h
  dsimp only at h
  split at h
  · cases h
  · next hcontent =>
    split at h
    · cases h
    · next hkey =>
      obtain ⟨path, hpath, -⟩ := bind_eq_ok.1 h
      exact ⟨hidentifier hcontent, hidentifier hkey, path, hpath⟩

namespace Compiler

theorem exists_ofConfig {config : Config} (h : config.validate = .ok ()) :
    ∃ c, ofConfig config = .ok c ∧ c.config = config ∧
      ∀ key ∈ c.keyColumn, key.column = config.keyColumn := by
  obtain ⟨-, -, path, hpath⟩ := Config.of_validate h
  refine ⟨⟨config, if config.embeddedId.materialized then
      some ⟨path, config.keyColumn, config.keyType⟩ else none⟩, ?_, rfl, ?_⟩
  · unfold ofConfig
    rw [h, hpath]
    rfl
  · intro key hkey
    dsimp only at hkey
    split at hkey
    · rw [← Option.some.inj hkey]
    · cases hkey

/-- Every restriction of an accepted filter is balanced. -/
theorem balanced_restrictions {c : Compiler} {f : Filter}
    (hcontent : '"' ∉ c.config.contentColumn.toList) (hkey : '"' ∉ c.config.keyColumn.toList)
    (hf : f.Writable) : ∀ fragment ∈ (c.compile f).restrictions, fragment.Balanced := by
  intro fragment hfragment
  simp only [Compiled.restrictions, compile, List.mem_append, Option.mem_toList, List.mem_map,
    Option.map_eq_some_iff] at hfragment
  obtain (((⟨e, he, rfl⟩ | hkeys) | ⟨comparison, hmem, rfl⟩) | ⟨s, hmem, rfl⟩) | ⟨t, hmem, rfl⟩ :=
    hfragment
  · exact e.balanced_fragment hcontent (Expression.quotable_of_ofConditions? hf.conditions he)
  · exact balanced_of_renderKeys hkey hkeys
  · exact comparison.balanced_render hcontent (hf.comparisons _ hmem)
  · exact s.balanced_render hcontent (hf.spatial _ hmem)
  · exact t.balanced_render hcontent (hf.textSearches _ hmem)

/-- **The statements of a compiler are closed.** For every valid configuration and every accepted
document, whatever the names in them: the restrictions end outside of literals and identifiers and
have as many placeholders as values, and the sort order ends there and has none. -/
theorem closed_compileJson {config : Config} (hconfig : config.validate = .ok ()) {document : Json}
    {f : Filter} (hdocument : Filter.ofJson document = .ok f) :
    ∃ c compiled, ofConfig config = .ok c ∧ c.compileJson document = .ok compiled ∧
      (∀ w ∈ compiled.whereClause, Closed w.sql w.binds.length) ∧
      ∀ sql ∈ compiled.orderBy, Closed sql 0 := by
  obtain ⟨hcontent, hkey, -⟩ := Config.of_validate hconfig
  obtain ⟨c, hc, rfl, hcolumn⟩ := exists_ofConfig hconfig
  have hf := Filter.writable_of_ofJson hdocument
  refine ⟨c, c.compile f, hc, by rw [compileJson, hdocument]; rfl, ?_, ?_⟩
  · intro w hw
    exact Fragment.balanced_of_join (balanced_restrictions hcontent hkey hf) hw
  · intro sql hsql
    obtain ⟨spec, hspec, rfl⟩ := Option.map_eq_some_iff.1 hsql
    exact SortSpec.closed_render hcontent (fun k hk => hcolumn k hk ▸ hkey) _ (hf.sort spec hspec)

/-- Apostrophes and question marks in columns, fields and values. -/
theorem closed_compileJson_apostrophes :
    let config : Config := { contentColumn := "it's ?", keyColumn := "k'?" }
    let document : Json := .object
      [("o'clock?", .object [("$date", .object [("$gt", .string "2020-01-01")])]),
        ("$id", .array [.string "'?", .string "\""]),
        ("$sqlJson", .object [("it's", .bool true)]),
        ("text?", .object [("$contains", .string "who's?")]),
        ("$orderby", .object [("d'?", .number ⟨false, 1, [], none⟩)])]
    config.validate = .ok () ∧ (Filter.ofJson document).toBool = true ∧
      ∃ c compiled, ofConfig config = .ok c ∧ c.compileJson document = .ok compiled ∧
        (∀ w ∈ compiled.whereClause, Closed w.sql w.binds.length) ∧
        ∀ sql ∈ compiled.orderBy, Closed sql 0 := by
  intro config document
  have hdocument : (Filter.ofJson document).toBool = true := by decide +kernel +zetaReduce
  have hconfig : config.validate = .ok () := by decide +kernel +zetaReduce
  refine ⟨hconfig, hdocument, ?_⟩
  cases h : Filter.ofJson document with
  | ok f => exact closed_compileJson hconfig h
  | error e =>
    rw [h] at hdocument
    cases hdocument

end Compiler

end DocFilter
