import RowQuery.Compile.Relation
import RowQuery.Compile.Localization

/-!
# Filters to conditions

A filter's path is walked from the root entity. A relation that is registered, and reached through
registered relations only, is left to a join and its path reported; any other becomes a subselect.
What is left at the end is a column, a key inside a JSON column or a language of a translated one.
-/

namespace RowQuery.Compile

open RowQuery.Schema RowQuery.Sql

/-- What the localized columns of a context are read with. -/
def Context.localizer (ctx : Context) : Localizer :=
  { settings := ctx.settings, language := ctx.language, dialect := ctx.dialect }

/-- Where a walk along a path has got to. -/
structure Site where
  schema : Schema
  table : String
  /-- Whether columns are qualified by the table. -/
  qualified : Bool
  /-- The registered path so far with a dot behind it, or none inside a subselect. -/
  walked : Option String
  depth : Nat

/-- The table that qualifies columns, if any does. -/
def Site.qualifier (site : Site) : Option String := if site.qualified then some site.table else none

/-- The condition of a filter and the registered paths it goes through. -/
structure Narrowing where
  condition : Predicate
  paths : List String
  deriving DecidableEq, Repr

/-- The condition of a filter on a column. -/
def leafCondition (ctx : Context) (flt : Filter) (f : Field) (table : Option String) :
    Except Error Predicate := do
  let tr := ctx.localizer
  if f.translated && tr.isAll tr.ownLanguage then
    tr.anyLanguage f table flt
  else
    let lhs ← tr.expr f table .null
    return .test lhs (← flt.test (if f.translated then some .string else f.kind))

/-- The expression of what is inside a column: the text at some keys of a JSON column, or one language
    of a translated one. -/
def innerExpr (ctx : Context) (entity path : String) (f : Field) (table : Option String)
    (rest : List String) : Except Error Expr := do
  let c ← ctx.column f table
  if f.isJson then
    return .jsonText c (Path.dotted rest)
  match f.translated, rest with
  | true, [language] => return .language c language
  | _, _ => throw (.fieldNotFound entity (Path.dotted rest) path)

/-- The condition of a filter from a site on, along the segments `head` and `rest`. -/
def narrow (ctx : Context) (flt : Filter) :
    (rest : List String) → (head : String) → Site → Traced Narrowing
  | [], head, site => do
    ctx.checkDepth site.depth flt.name
    let f ← site.schema.field head flt.name
    if f.isRelation then
      throw (.relationCompared flt.name)
    return ⟨← leafCondition ctx flt f site.qualifier, []⟩
  | next :: more, head, site => do
    ctx.checkDepth site.depth flt.name
    let f ← site.schema.field head flt.name
    if !f.isRelation then
      let lhs ← innerExpr ctx site.schema.entity flt.name f site.qualifier (next :: more)
      return ⟨.test lhs (← flt.test (some .string)), []⟩
    let related ← ctx.related f
    match ctx.registered? site.walked head with
    | some (path, config) =>
      let inner ← narrow ctx flt more next
        { schema := related, table := config.table, qualified := true, walked := some (path ++ ".")
          depth := site.depth + 1 }
      return ⟨inner.condition, path :: inner.paths⟩
    | none =>
      let inner ← narrow ctx flt more next
        { schema := related, table := related.table, qualified := f.relation != .manyToMany
          walked := none, depth := site.depth + 1 }
      let frames ← relationFrames ctx.settings ctx.dialect f site.table related.table
      return ⟨Frame.nest frames inner.condition, inner.paths⟩

/-- The conditions of filters, all of which have to hold, and the registered paths they go through. -/
structure FilterPart where
  conditions : List Predicate
  paths : List String
  deriving DecidableEq, Repr

namespace FilterPart

/-- The bound values. -/
def args (p : FilterPart) : List Value := argsOf p.conditions

/-- The tokens of the conditions. -/
def tokens (d : Dialect) (p : FilterPart) : List Token := connectedTokens d "AND" p.conditions

/-- The text of the conditions. -/
def text (d : Dialect) (p : FilterPart) : String := Token.print (p.tokens d)

end FilterPart

/-- The root of the walks of a request. -/
def Site.root (schema : Schema) (table : String) : Site :=
  { schema, table, qualified := true, walked := some "", depth := 0 }

/-- Compiles filters on an entity, whose table may go by another name. -/
def compileFilters (ctx : Context) (filters : List Filter) (subject : Subject)
    (table : Option String) : Traced FilterPart := do
  let schema ← ctx.describe subject
  let root := Site.root schema ((nonEmpty? table).getD schema.table)
  let found ← filters.mapM fun flt => narrow ctx flt flt.path.rest flt.path.head root
  let part : FilterPart :=
    { conditions := found.map (·.condition), paths := Text.mergeNew [] (found.flatMap (·.paths)) }
  if !part.conditions.isEmpty then
    Traced.note
      (Log.fragment "FilterCompiler" "filter" (part.text ctx.style) (part.args.map Value.display))
  return part

end RowQuery.Compile
