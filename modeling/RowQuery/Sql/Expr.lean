import RowQuery.Sql.Token

/-!
# Columns and expressions

A column may be qualified by a table. An expression is a column, a text inside its JSON, or the text
that a translated column has in one language.
-/

namespace RowQuery.Sql

/-- A column. The name of a bare column is not quoted. -/
structure Column where
  table : Option String
  name : String
  bare : Bool := false
  deriving DecidableEq, Repr

namespace Column

/-- A qualified column. -/
def of (table name : String) : Column := { table := some table, name }

/-- The tokens of a column. -/
def tokens (d : Dialect) (c : Column) : List Token :=
  let name := if c.bare then Token.word c.name else Token.name d c.name
  match c.table with
  | some table => [.name d table, .symbol ".", name]
  | none => [name]

/-- The text of a column. -/
def text (d : Dialect) (c : Column) : String := Token.print (c.tokens d)

end Column

/-- The text of what is at a path into a JSON value. -/
def jsonTextTokens (value : List Token) (keys : String) : List Token :=
  [.word "CAST", .symbol "("] ++ value ++ [.symbol "->", .literal (keyPath keys)] ++
    Token.spaced "AS" ++ [.word "CHAR", .symbol ")"]

/-- The text that a JSON map of languages has for one of them. -/
def languageTokens (value : List Token) (language : String) : List Token :=
  [.word "JSON_UNQUOTE", .symbol "(", .word "JSON_EXTRACT", .symbol "("] ++ value ++ Token.comma ++
    [.literal (languagePath language), .symbol ")", .symbol ")"]

/-- What a condition or an order is about. -/
inductive Expr where
  | column (c : Column)
  /-- The text at dotted keys inside a JSON column. -/
  | jsonText (c : Column) (keys : String)
  /-- The text that a translated column has in a language. -/
  | language (c : Column) (code : String)
  deriving DecidableEq, Repr

namespace Expr

/-- The column that an expression reads. -/
def source : Expr → Column
  | .column c | .jsonText c _ | .language c _ => c

/-- The tokens of an expression. -/
def tokens (d : Dialect) : Expr → List Token
  | .column c => c.tokens d
  | .jsonText c keys => jsonTextTokens (c.tokens d) keys
  | .language c code => languageTokens (c.tokens d) code

/-- The text of an expression. -/
def text (d : Dialect) (e : Expr) : String := Token.print (e.tokens d)

end Expr

/-- An expression that is selected, under a name of its own if it is not a plain column. -/
structure SelectItem where
  expr : Expr
  deriving DecidableEq, Repr

namespace SelectItem

/-- The tokens of a selected expression. -/
def tokens (d : Dialect) (s : SelectItem) : List Token :=
  match s.expr with
  | .column c => c.tokens d
  | e => e.tokens d ++ Token.spaced "AS" ++ [.name d e.source.name]

/-- The text of a selected expression. -/
def text (d : Dialect) (s : SelectItem) : String := Token.print (s.tokens d)

end SelectItem

/-- What rows are ordered by. -/
inductive OrderKey where
  | expr (e : Expr)
  /-- A name that no field matches, written as it stands. -/
  | verbatim (name : String)
  deriving DecidableEq, Repr

/-- The tokens of an order key. -/
def OrderKey.tokens (d : Dialect) : OrderKey → List Token
  | .expr e => e.tokens d
  | .verbatim name => [.word name]

/-- An order key and a direction. -/
structure OrderTerm where
  key : OrderKey
  direction : Direction
  deriving DecidableEq, Repr

/-- The tokens of an order term. -/
def OrderTerm.tokens (d : Dialect) (t : OrderTerm) : List Token :=
  t.key.tokens d ++ [.space, .word t.direction.name]

/-- The tokens of an order. -/
def orderTokens (d : Dialect) (terms : List OrderTerm) : List Token :=
  Token.joined Token.comma (terms.map (·.tokens d))

end RowQuery.Sql
