/-!
# Errors

The causes for which a filter, a path or a configuration is refused, each with the text and the
code that report it.

## Main definitions

* `PathFault`: what is wrong with a path.
* `Error`: the causes of refusal.
* `Error.message`, `Error.code`: how a cause is reported.
-/

namespace DocFilter

/-- What is wrong with a path. -/
inductive PathFault where
  | emptyPath
  | emptyStep
  | rootMarker
  | malformedSubscript
  | unclosedArray
  | unclosedQuote
  | missingDot
deriving DecidableEq, Repr

/-- The text that tells a user what is wrong with a path. -/
def PathFault.message : PathFault → String
  | emptyPath => "path is empty"
  | emptyStep => "path contains an empty step"
  | rootMarker => "'$' and '@' cannot be used as a step"
  | malformedSubscript => "malformed array subscript"
  | unclosedArray => "array subscript is not closed"
  | unclosedQuote => "quoted step is not closed"
  | missingDot => "missing '.' after array or quoted step"

/-- Why a filter, a path or a configuration is refused. -/
inductive Error where
  /-- The text is no JSON document. -/
  | invalidJson
  | invalidPath (path : String) (fault : PathFault)
  | typeMismatch (key expected found : String)
  | emptyContent (key : String)
  | unknownOperator (key : String)
  /-- A keyword stands where it means nothing. -/
  | misplacedOperator (key : String)
  /-- A clause that may be given once is given again. -/
  | multipleClauses (key : String)
  /-- A member stands beside `$query` that belongs into it. -/
  | mixedQueryEnvelope (key : String)
  /-- The object of a field has both operators and field names. -/
  | mixedDownscope (field : String)
  | nestedModifier (inner outer : String)
  | notTopLevel (key : String)
  | conflictingErrorClauses (key : String)
  | singletonPathRequired (path : String)
  | invalidLiteral (key reason : String)
  /-- The configuration text cannot be read. -/
  | malformedConfig
  | invalidConfig (reason : String)
  /-- A binary number has no numeral. -/
  | nonFiniteNumber
deriving DecidableEq, Repr

namespace Error

/-- The text that tells a user why something is refused. It names the key or the path. -/
def message : Error → String
  | invalidJson => "Invalid JSON"
  | invalidPath path fault => "Invalid path '" ++ path ++ "': " ++ fault.message
  | typeMismatch key expected found =>
    "Type mismatch for '" ++ key ++ "': expected " ++ expected ++ ", got " ++ found
  | emptyContent key => "'" ++ key ++ "' requires non-empty content"
  | unknownOperator key => "Unknown operator '" ++ key ++ "'"
  | misplacedOperator key => "Operator '" ++ key ++ "' is not allowed here"
  | multipleClauses key => "Clause '" ++ key ++ "' may appear only once"
  | mixedQueryEnvelope key => "'$query' cannot be combined with '" ++ key ++ "'"
  | mixedDownscope field => "'" ++ field ++ "' mixes operators with nested field names"
  | nestedModifier inner outer =>
    "Modifier '" ++ inner ++ "' cannot be nested under '" ++ outer ++ "'"
  | notTopLevel key => "'" ++ key ++ "' is only allowed at the top level of a filter"
  | conflictingErrorClauses key =>
    "'$lax' and '$scalarRequired' cannot both be set for '" ++ key ++ "'"
  | singletonPathRequired path => "Path '" ++ path ++ "' must not contain array steps or wildcards"
  | invalidLiteral key reason => "Invalid literal for '" ++ key ++ "': " ++ reason
  | malformedConfig => "Invalid configuration"
  | invalidConfig reason => "Invalid configuration: " ++ reason
  | nonFiniteNumber => "non-finite number"

/-- The code of a cause. The two faults that concern an array subscript have one of their own. -/
def code : Error → String
  | invalidJson => "INVALID_JSON"
  | invalidPath _ .malformedSubscript => "ARRAY_SUBSCRIPT"
  | invalidPath _ .unclosedArray => "ARRAY_SUBSCRIPT"
  | invalidPath _ _ => "INVALID_PATH"
  | typeMismatch .. => "TYPE_MISMATCH"
  | emptyContent _ => "EMPTY_CONTENT"
  | unknownOperator _ => "UNKNOWN_OPERATOR"
  | misplacedOperator _ => "MISPLACED_OPERATOR"
  | multipleClauses _ => "MULTIPLE_CLAUSES"
  | mixedQueryEnvelope _ => "MIXED_QUERY_ENVELOPE"
  | mixedDownscope _ => "MIXED_DOWNSCOPE"
  | nestedModifier .. => "NESTED_MODIFIER"
  | notTopLevel _ => "NOT_TOP_LEVEL"
  | conflictingErrorClauses _ => "CONFLICTING_ERROR_CLAUSES"
  | singletonPathRequired _ => "SINGLETON_PATH_REQUIRED"
  | invalidLiteral .. => "INVALID_LITERAL"
  | malformedConfig => "INVALID_CONFIG"
  | invalidConfig _ => "INVALID_CONFIG"
  | nonFiniteNumber => "DESERIALIZE"

end Error

end DocFilter
