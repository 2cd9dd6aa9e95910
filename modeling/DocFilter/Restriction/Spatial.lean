import DocFilter.Json.Writer
import DocFilter.Keyword
import DocFilter.Sql.ErrorMode
import DocFilter.Sql.Fragment

/-!
# Spatial restrictions

`$near`, `$within` and `$intersects` compare the geometry in a field with a given one.

## Main definitions

* `Spatial`: a spatial restriction.
* `Spatial.read`: the restriction that the operand of a spatial keyword describes.
* `Spatial.render`: a restriction in SQL.
-/

namespace DocFilter

/-- A relation between the geometry at `path` and a given one. -/
structure Spatial where
  path : Path
  relation : SpatialRelation
  geometry : Json
  distance : Option Numeral
  unit : Option String
  mode : ErrorMode

namespace Spatial

/-- What has been read of the operand of a spatial keyword. Later members replace earlier ones. -/
structure Draft where
  geometry : Option Json := none
  distance : Option Numeral := none
  unit : Option String := none
  lax : Bool := false
  scalarRequired : Bool := false

/-- One member of the operand. Distance and unit belong to `$near` only. -/
def Draft.add (relation : SpatialRelation) (d : Draft) (name : String) (value : Json) :
    Except Error Draft :=
  if name = "$geometry" then
    (value.expectMembers name).map fun members => { d with geometry := some (.object members) }
  else if (name = "$distance" ∨ name = "$unit") ∧ relation ≠ .near then
    .error (.misplacedOperator name)
  else if name = "$distance" then
    (value.expectNumber name).map fun n => { d with distance := some n }
  else if name = "$unit" then
    (value.expectString name).map fun s => { d with unit := some s }
  else if name = "$lax" then
    (value.expectBool name).map fun b => { d with lax := b }
  else if name = "$scalarRequired" then
    (value.expectBool name).map fun b => { d with scalarRequired := b }
  else .error (.unknownOperator name)

/-- The restriction of the field at `path` by the operand of a spatial keyword. -/
def read (path : Path) (relation : SpatialRelation) (operand : Json) : Except Error Spatial := do
  let members ← operand.expectSomeMembers relation.keyword
  let d ← members.foldlM (fun d (name, value) => Draft.add relation d name value) {}
  let some geometry := d.geometry | throw (.emptyContent "$geometry")
  if relation = .near ∧ d.distance.isNone then throw (.emptyContent "$distance")
  let mode ← ErrorMode.ofFlags relation.keyword d.lax d.scalarRequired
  return ⟨path, relation, geometry, d.distance, d.unit, mode⟩

/-- The parameters of the distance test. -/
def parameters (distance : Numeral) (unit : Option String) : String :=
  "distance=" ++ distance.text ++
    match unit with
    | some unit => " unit=" ++ unit
    | none => ""

/-- The restriction in SQL. The geometry is bound as text, and a distance with it. -/
def render (column : String) (s : Spatial) : Fragment :=
  let sql := s.relation.function ++ "(JSON_VALUE(" ++ quoteIdentifier column ++ ", '" ++
    s.mode.pathText s.path ++ "' RETURNING SDO_GEOMETRY " ++ s.mode.onError ++
    " NULL ON EMPTY), JSON_VALUE(?, '$' RETURNING SDO_GEOMETRY ERROR ON ERROR)"
  match s.distance with
  | some distance =>
    ⟨sql ++ ", ?) = 'TRUE'", [.text s.geometry.write, .text (parameters distance s.unit)]⟩
  | none => ⟨sql ++ ") = 'TRUE'", [.text s.geometry.write]⟩

end Spatial

end DocFilter
