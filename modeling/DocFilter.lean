import DocFilter.Text.Blank
import DocFilter.Text.Digit
import DocFilter.Text.Hex
import DocFilter.Json.Numeral
import DocFilter.Json.Basic
import DocFilter.Json.Reader
import DocFilter.Json.Maps
import DocFilter.Json.Writer
import DocFilter.Binary64.Nearest
import DocFilter.Binary64.Shortest
import DocFilter.Calendar.Date
import DocFilter.Calendar.Moment
import DocFilter.Calendar.Reader
import DocFilter.Error
import DocFilter.Path.Subscript
import DocFilter.Path.Scan
import DocFilter.Path.Basic
import DocFilter.Path.Reader
import DocFilter.Path.Rendition
import DocFilter.Keyword
import DocFilter.Json.Expect
import DocFilter.Operand
import DocFilter.Sql.Fragment
import DocFilter.Sql.ErrorMode
import DocFilter.Restriction.Keys
import DocFilter.Restriction.Comparison
import DocFilter.Restriction.Spatial
import DocFilter.Restriction.TextSearch
import DocFilter.Sort.Basic
import DocFilter.Sort.Reader
import DocFilter.Filter.Test
import DocFilter.Filter.Formula
import DocFilter.Filter.Condition
import DocFilter.Filter.Layout
import DocFilter.Filter.Expression
import DocFilter.Filter.Basic
import DocFilter.Toml.Basic
import DocFilter.Toml.Reader
import DocFilter.Config.Basic
import DocFilter.Config.Reader
import DocFilter.Compiler
import DocFilter.Proofs.Text.Runs
import DocFilter.Proofs.Path.Subscript
import DocFilter.Proofs.Path.Scan
import DocFilter.Proofs.Reading.Tests
import DocFilter.Proofs.Path.Grammar
import DocFilter.Proofs.Path.RoundTrip
import DocFilter.Proofs.Reading.Formulas
import DocFilter.Proofs.Reading.Documents
import DocFilter.Proofs.Acceptance.Tests
import DocFilter.Proofs.Acceptance.Filters
import DocFilter.Proofs.Leaves
import DocFilter.Proofs.Comparands
import DocFilter.Proofs.Shape
import DocFilter.Proofs.Meaning
import DocFilter.Proofs.Lowering
import DocFilter.Proofs.Expression.Token
import DocFilter.Proofs.Expression.Grammar
import DocFilter.Proofs.Expression.Rendition
import DocFilter.Proofs.Path.Query
import DocFilter.Proofs.Expression.Truth
import DocFilter.Proofs.Expression.Levels
import DocFilter.Proofs.Layout.Walk
import DocFilter.Proofs.Layout.Binds
import DocFilter.Proofs.Sql.Scan
import DocFilter.Proofs.Sql.Paths
import DocFilter.Proofs.Sql.Statement
import DocFilter.Proofs.Flattening
import DocFilter.Proofs.Layout.Table
import DocFilter.Proofs.Channels
import DocFilter.Proofs.Comparisons
import DocFilter.Proofs.Json.Tokens
import DocFilter.Proofs.Json.Values
import DocFilter.Proofs.Json.RoundTrip
import DocFilter.Proofs.Json.Collapse
import DocFilter.Proofs.Calendar.Days
import DocFilter.Proofs.Calendar.Fields
import DocFilter.Proofs.Calendar.Moments
import DocFilter.Proofs.Calendar.Normal
import DocFilter.Proofs.Assembly.Basic
import DocFilter.Proofs.Calendar.Instant
import DocFilter.Proofs.Calendar.Masks
import DocFilter.Proofs.Assembly.Truth
import DocFilter.Proofs.Assembly.Associativity
import DocFilter.Proofs.Assembly.Restrictions
import DocFilter.Proofs.Assembly.Steps
import DocFilter.Proofs.Accounts
import DocFilter.Proofs.Sort.Ranks
import DocFilter.Proofs.Binary64.Rounding
import DocFilter.Proofs.Json.Literals
import DocFilter.Proofs.Presence
import DocFilter.Proofs.Expression.Constructs
