import RowQuery.Detail

/-!
# Reports

A report is the form in which a failure reaches a caller: its kind, a message and named details.
Kinds form a tree under the most general one.
-/

namespace RowQuery

/-- The kinds of failures. -/
inductive ReportKind where
  | general
  | query
  | operator
  | filter
  | sort
  | schema
  | fieldNotFound
  | invalidSchema
  | join
  | joinNotFound
  | invalidJoin
  | conversion
  deriving DecidableEq, Repr

namespace ReportKind

/-- The name of a kind. -/
def name : ReportKind → String
  | .general => "QapiError"
  | .query => "QueryParseError"
  | .operator => "UnsupportedOperatorError"
  | .filter => "InvalidFilterError"
  | .sort => "InvalidSortError"
  | .schema => "SchemaError"
  | .fieldNotFound => "FieldNotFoundError"
  | .invalidSchema => "InvalidSchemaError"
  | .join => "JoinError"
  | .joinNotFound => "JoinNotFoundError"
  | .invalidJoin => "InvalidJoinConfigError"
  | .conversion => "TypeConversionError"

/-- All kinds. -/
def all : List ReportKind :=
  [general, query, operator, filter, sort, schema, fieldNotFound, invalidSchema, join, joinNotFound,
    invalidJoin, conversion]

/-- The kind with a given name. -/
def ofName? (s : String) : Option ReportKind := all.find? (·.name == s)

/-- A kind and the more general ones, up to the most general. -/
def lineage : ReportKind → List ReportKind
  | .general => [general]
  | .query => [query, general]
  | .operator => [operator, query, general]
  | .filter => [filter, query, general]
  | .sort => [sort, query, general]
  | .schema => [schema, general]
  | .fieldNotFound => [fieldNotFound, schema, general]
  | .invalidSchema => [invalidSchema, schema, general]
  | .join => [join, general]
  | .joinNotFound => [joinNotFound, join, general]
  | .invalidJoin => [invalidJoin, join, general]
  | .conversion => [conversion, general]

end ReportKind

/-- A failure as a caller sees it. -/
structure Report where
  kind : ReportKind
  message : String
  details : List (String × Detail)
  deriving Repr

namespace Report

/-- The message with its details in brackets; either may be missing. -/
def text (r : Report) : String :=
  let details := ", ".intercalate (r.details.map fun (key, value) => key ++ "=" ++ value.display)
  if r.details.isEmpty then r.message
  else if r.message == "" then details
  else r.message ++ " (" ++ details ++ ")"

/-- The display of a report. -/
def display (r : Report) : String :=
  r.kind.name ++ "(message=" ++ Text.display r.message ++ ", details=" ++
    (Detail.record r.details).display ++ ")"

end Report

end RowQuery
