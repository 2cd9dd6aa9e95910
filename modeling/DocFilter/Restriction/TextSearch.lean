import DocFilter.Path.Rendition
import DocFilter.Sql.Fragment

/-!
# Text search

`$contains` searches the text of a field.

## Main definitions

* `TextSearch`: a text search.
* `TextSearch.read`: the search that the operand of `$contains` describes.
* `TextSearch.render`: a search in SQL.
-/

namespace DocFilter

/-- A search for words in the text at `path`. -/
structure TextSearch where
  path : Path
  search : String
deriving DecidableEq, Repr

namespace TextSearch

/-- The search by the operand of `$contains`, which has to have more than blanks. -/
def read (path : Path) (operand : Json) : Except Error TextSearch := do
  let search ← operand.expectString "$contains"
  if search.toList.all isBlank then throw (.emptyContent "$contains")
  return ⟨path, search⟩

/-- The search in SQL, where the words are bound. -/
def render (column : String) (t : TextSearch) : Fragment :=
  ⟨"JSON_TEXTCONTAINS(" ++ quoteIdentifier column ++ ", '" ++ t.path.singleton false ++ "', ?)",
    [.text t.search]⟩

end TextSearch

end DocFilter
