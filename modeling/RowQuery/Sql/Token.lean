import RowQuery.Sql.Dialect

/-!
# Tokens

SQL is written as a list of tokens, spaces included, whose texts are put one after the other. A name
that is quoted knows its dialect, because joins may be written in another dialect than the conditions
beside them.
-/

namespace RowQuery.Sql

/-- A piece of SQL. -/
inductive Token where
  /-- A keyword, or a name that is not quoted. -/
  | word (text : String)
  | space
  /-- Brackets, dots, commas and operators. -/
  | symbol (text : String)
  | name (dialect : Dialect) (text : String)
  | literal (text : String)
  | placeholder
  deriving DecidableEq, Repr

namespace Token

/-- How a token is written. -/
def text : Token → String
  | .word s => s
  | .space => " "
  | .symbol s => s
  | .name d s => d.quoteName s
  | .literal s => quoteLiteral s
  | .placeholder => "?"

/-- How tokens are written. -/
def print (ts : List Token) : String := String.join (ts.map text)

/-- Keywords with a space between each two. -/
def words (ws : List String) : List Token := (ws.map word).intersperse space

/-- Lists of tokens with `between` between each two. -/
def joined (between : List Token) (parts : List (List Token)) : List Token :=
  between.intercalate parts

/-- A keyword between spaces. -/
def spaced (w : String) : List Token := [space, word w, space]

/-- A symbol between spaces. -/
def spacedSymbol (s : String) : List Token := [space, symbol s, space]

/-- A comma and a space. -/
def comma : List Token := [symbol ",", space]

/-- Tokens between round brackets. -/
def bracketed (ts : List Token) : List Token := [symbol "("] ++ ts ++ [symbol ")"]

/-- Tokens between round brackets and spaces. -/
def bracketedSpaced (ts : List Token) : List Token :=
  [symbol "(", space] ++ ts ++ [space, symbol ")"]

end Token

end RowQuery.Sql
