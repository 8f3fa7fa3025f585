import RowQuery.Compile.Search
import RowQuery.Compile.Sorts
import RowQuery.Query

/-!
# Whole queries

A query is compiled into its parts: the filter conditions, the alternatives of the search, the joins
and the discriminators of those that filters and search go through, the order, the selected
expressions and the page. `Compiled.statement` puts them together, and `Compiled.count` counts the
rows.
-/

namespace RowQuery.Compile

open RowQuery.Schema RowQuery.Sql RowQuery.Join

/-- A compiled query. -/
structure Compiled where
  table : String
  filters : List Predicate
  search : List Predicate
  discriminators : List Discriminator
  order : List OrderTerm
  select : List SelectItem
  joins : List JoinClause
  /-- The relation paths that are joined for filters, search and preloads. -/
  paths : List String
  preloads : List String
  offset : Int
  limit : Int
  /-- The dialect that was asked for. -/
  requested : Option String
  /-- The dialect of the query, and the one that its joins and discriminators are written in. -/
  style : Dialect
  joinStyle : Dialect
  deriving DecidableEq, Repr

namespace Compiled

/-- The values bound in the conditions: those of the filters, then those of the search. -/
def args (q : Compiled) : List Value := argsOf q.filters ++ argsOf q.search

/-- The conditions that all have to hold: the filters in brackets, the search, the discriminators. -/
def conditionTokens (q : Compiled) : List (List Token) :=
  (if q.filters.isEmpty then [] else [Token.bracketed (connectedTokens q.style "AND" q.filters)]) ++
    (if q.search.isEmpty then [] else [SearchPart.tokens q.style ⟨q.search, []⟩]) ++
    q.discriminators.map fun x => x.predicate.tokens q.joinStyle

/-- The tokens of the whole condition. -/
def whereTokens (q : Compiled) : List Token := Token.joined (Token.spaced "AND") q.conditionTokens

/-- The text of the whole condition, empty if there is none. -/
def whereText (q : Compiled) : String := Token.print q.whereTokens

/-- The text of the order, empty if there is none. -/
def orderText (q : Compiled) : String := Token.print (orderTokens q.style q.order)

/-- The texts of the selected expressions. -/
def selectTexts (q : Compiled) : List String := q.select.map (·.text q.style)

/-- The texts of the joins. -/
def joinTexts (q : Compiled) : List String := q.joins.map (·.text q.joinStyle)

/-- The tokens of the table, its joins and the condition. -/
def fromTokens (q : Compiled) : List Token :=
  [.word "FROM", .space, .name q.style q.table] ++
    q.joins.flatMap (fun clause => .space :: clause.tokens q.joinStyle) ++
    (if q.conditionTokens.isEmpty then [] else Token.spaced "WHERE" ++ q.whereTokens)

/-- The tokens of what is selected: the expressions, or everything of the table. -/
def projectionTokens (q : Compiled) : List Token :=
  if !q.select.isEmpty then Token.joined Token.comma (q.select.map (·.tokens q.style))
  else if q.joins.isEmpty then [.symbol "*"]
  else [.name q.style q.table, .symbol ".", .symbol "*"]

/-- The greatest limit, which stands in where only an offset is asked for. -/
def noLimit : Int := 18446744073709551615

/-- Whether a page is asked for. -/
def isPaged (q : Compiled) : Bool := 0 < q.limit || 0 < q.offset

/-- The tokens of the page. -/
def pageTokens (q : Compiled) : List Token :=
  if q.isPaged then
    Token.spaced "LIMIT" ++ [.placeholder] ++
      (if 0 < q.offset then Token.spaced "OFFSET" ++ [.placeholder] else [])
  else []

/-- The values bound in the page. -/
def pageArgs (q : Compiled) : List Value :=
  if q.isPaged then
    .int (if 0 < q.limit then q.limit else noLimit) :: (if 0 < q.offset then [.int q.offset] else [])
  else []

/-- The tokens of the statement. -/
def statementTokens (q : Compiled) : List Token :=
  [.word "SELECT", .space] ++ q.projectionTokens ++ [.space] ++ q.fromTokens ++
    (if q.order.isEmpty then []
      else [.space] ++ Token.words ["ORDER", "BY"] ++ [.space] ++ orderTokens q.style q.order) ++
    q.pageTokens

/-- The tokens of the statement that counts the rows. Joins may repeat rows, which are then told apart
    by their key. -/
def countTokens (key : String) (q : Compiled) : List Token :=
  let counted := if q.joins.isEmpty then [.symbol "*"]
    else [.word "DISTINCT", .space] ++ (Column.of q.table key).tokens q.style
  [.word "SELECT", .space, .word "COUNT"] ++ Token.bracketed counted ++ [.space] ++ q.fromTokens

/-- The statement and the values bound in it. The dialect has to be known. -/
def statement (settings : Settings) (q : Compiled) : Except Error (String × List Value) := do
  let _ ← Dialect.resolve settings q.requested
  return (Token.print q.statementTokens, q.args ++ q.pageArgs)

/-- The statement that counts the rows and the values bound in it. The dialect has to be known, and
    the key has a name if it is needed. -/
def count (settings : Settings) (q : Compiled) : Except Error (String × List Value) := do
  let _ ← Dialect.resolve settings q.requested
  let key ← if q.joins.isEmpty then pure "" else settings.keyName
  return (Token.print (q.countTokens key), q.args)

end Compiled

/-- The joins of the paths that filters and search go through, with their discriminators apart, then
    those of the preloads that are registered and not joined yet, with theirs in the clauses. -/
def requestJoins (ctx : Context) (table : String) (paths preloads : List String) :
    Except Error (List JoinClause × List Discriminator) :=
  match ctx.registry with
  | none => .ok ([], [])
  | some registry => do
    let (joins, discriminators) ← registry.joins ctx.settings table paths false
    let (preloaded, _) ← registry.joins ctx.settings table preloads true
    return (Text.mergeNew joins preloaded, discriminators)

/-- The preloads that are joined: those that are registered and that nothing else joins. -/
def joinedPreloads (ctx : Context) (paths preloads : List String) : List String :=
  preloads.filter fun p => (ctx.registry.elim false (·.contains p)) && p ∉ paths

/-- Checks that every preload starts with a field. -/
def checkPreloads (schema : Schema) (preloads : List String) : Except Error Unit :=
  preloads.forM fun p => (schema.field (Path.ofText p).head p).map fun _ => ()

/-- The record of a compiled query. -/
def summary (level : Log.Level) (schema : Schema) (q : Query) (searched : Bool) (joins : Nat) :
    Log.Record :=
  Log.record level "QueryCompiler"
    ("Compiled query for " ++ schema.entity ++ ": filters=" ++ toString q.filters.length ++
      " search=" ++ Detail.displayBool searched ++ " sorts=" ++ toString q.sorts.length ++
      " joins=" ++ toString joins)

/-- Compiles a query on an entity, whose table may go by another name. -/
def compileQuery (ctx : Context) (strict : Bool) (q : Query) (subject : Subject)
    (table : Option String) : Traced Compiled := do
  let schema ← ctx.describe subject
  let table := (nonEmpty? table).getD schema.table
  let filters ← compileFilters ctx q.filters subject (some table)
  let search ← compileSearch ctx q.term subject (some table)
  checkPreloads schema q.preloads
  let paths := Text.mergeNew filters.paths search.paths
  let preloads := joinedPreloads ctx paths q.preloads
  let (joins, discriminators) ← requestJoins ctx table paths preloads
  let sorts ← compileSorts ctx { strict, joined := paths } q.sorts subject (some table)
  let joins := Text.mergeNew joins sorts.joins
  let select ← if q.fields.isEmpty && (nonEmpty? ctx.language).isNone then pure []
    else (ctx.localizer.selectList schema q.fields (some table) .null : Traced (List SelectItem))
  let level ← Log.summaryLevel ctx.settings
  Traced.note (summary level schema q (!search.alternatives.isEmpty) joins.length)
  return {
    table, filters := filters.conditions, search := search.alternatives, discriminators
    order := sorts.terms, select, joins, paths := paths ++ preloads, preloads := q.preloads
    offset := q.offset, limit := q.limit, requested := ctx.dialect, style := ctx.style
    joinStyle := (ctx.sortRegistry).style ctx.settings }

end RowQuery.Compile
