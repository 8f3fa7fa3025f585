import RowQuery.Sql.Predicate

/-!
# Joins

A join clause brings in a table, or a pivot table and another, each on the equality of two columns.
A discriminator says which kind of rows a polymorphic table contributes; it stands in the clause
itself or among the conditions of the query.
-/

namespace RowQuery.Sql

/-- The type column of a polymorphic table has a given text. -/
structure Discriminator where
  column : Column
  value : String
  deriving DecidableEq, Repr

/-- The condition that a discriminator is. -/
def Discriminator.predicate (x : Discriminator) : Predicate := .hasText x.column x.value

/-- A table that is joined. -/
structure JoinStep where
  type : JoinType
  table : String
  left : Column
  right : Column
  discriminator : Option Discriminator := none
  deriving DecidableEq, Repr

/-- The tokens of one joined table. -/
def JoinStep.tokens (d : Dialect) (j : JoinStep) : List Token :=
  let on := Predicate.sameColumn j.left j.right
  let condition := match j.discriminator with
    | none => on
    | some x => .and on x.predicate
  Token.words j.type.words ++ [.space, .name d j.table] ++ Token.spaced "ON" ++
    condition.tokens d

/-- The tables that one relation brings in, in order. -/
abbrev JoinClause := List JoinStep

namespace JoinClause

/-- The tokens of a clause. -/
def tokens (d : Dialect) (clause : JoinClause) : List Token :=
  Token.joined [.space] (clause.map (·.tokens d))

/-- The text of a clause. -/
def text (d : Dialect) (clause : JoinClause) : String := Token.print (clause.tokens d)

/-- The tables that a clause brings in. -/
def tables (clause : JoinClause) : List String := clause.map (·.table)

end JoinClause

end RowQuery.Sql
