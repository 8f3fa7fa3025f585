import RowQuery.Compile.Filters
import RowQuery.Sorting

/-!
# Sorts to an order

A sort's path is walked from the root entity; every relation on it is joined, as it is registered or
by its own declaration, with the discriminator of a polymorphic one in the clause. Where sorts are
lenient, a path that no field matches is written as it stands, if it is a plain dotted name.
-/

namespace RowQuery.Compile

open RowQuery.Schema RowQuery.Sql RowQuery.Join

/-- How sorts are compiled. -/
structure SortMode where
  /-- Whether a path that no field matches is an error. -/
  strict : Bool
  /-- The registered paths that are joined already. -/
  joined : List String := []

/-- An order and the joins that it needs. -/
structure SortPart where
  terms : List OrderTerm
  joins : List JoinClause
  deriving DecidableEq, Repr

namespace SortPart

/-- The text of the order. -/
def text (d : Dialect) (p : SortPart) : String := Token.print (orderTokens d p.terms)

end SortPart

/-- The registry whose joins sorts use: the context's, or an empty one in the context's dialect where
    there is none or an empty one. -/
def Context.sortRegistry (ctx : Context) : Registry :=
  match ctx.registry with
  | some r => if r.isEmpty then { dialect := ctx.dialect } else r
  | none => { dialect := ctx.dialect }

/-- Where a sort's walk has got to. -/
structure SortSite where
  schema : Schema
  table : String
  /-- The path so far with a dot behind it. -/
  walked : String
  depth : Nat

/-- The key of a sort from a site on, along the segments `head` and `rest`, and the joins on the way. -/
def sortKey (ctx : Context) (mode : SortMode) (name : String) :
    (rest : List String) → (head : String) → SortSite → Traced (Expr × List JoinClause)
  | [], head, site => do
    ctx.checkDepth site.depth name
    let f ← site.schema.field head name
    if f.isRelation then
      throw (.relationSorted name)
    return (← ctx.localizer.sortExpr f (some site.table) .null, [])
  | next :: more, head, site => do
    ctx.checkDepth site.depth name
    let f ← site.schema.field head name
    if !f.isRelation then
      return (← innerExpr ctx site.schema.entity name f (some site.table) (next :: more), [])
    let related ← ctx.related f
    let path := site.walked ++ head
    let registry := ctx.sortRegistry
    let config ← match registry.get? path with
      | some config => pure config
      | none => (Config.ofField ctx.settings f site.table none : Traced Config)
    let own ← if path ∈ mode.joined then pure [] else do
      let (clause, _) ← registry.join ctx.settings site.table config true
      pure [clause]
    let (key, joins) ← sortKey ctx mode name more next
      { schema := related, table := config.table, walked := path ++ ".", depth := site.depth + 1 }
    return (key, Text.mergeNew own joins)

/-- Whether a text is a plain dotted name, which may end in a newline. -/
def isPlainName (s : String) : Bool :=
  let (part, parts) := Text.splitChars '.' (Filter.dropFinalNewline s.toList)
  (part :: parts).all fun
    | [] => false
    | c :: cs => (c.isAlpha || c == '_') && cs.all fun c => c.isAlphanum || c == '_'

/-- The order term of a sort and the joins that it needs. -/
def sortTerm (ctx : Context) (mode : SortMode) (schema : Schema) (table : String) (sort : Sorting) :
    Traced (OrderTerm × List JoinClause) := do
  let site : SortSite := { schema, table, walked := "", depth := 0 }
  match ← (sortKey ctx mode sort.name sort.path.rest sort.path.head site).attempt with
  | .ok (key, joins) => return (⟨.expr key, sort.direction⟩, joins)
  | .error (.fieldNotFound entity field path) =>
    if mode.strict then
      throw (.fieldNotFound entity field path)
    if !isPlainName sort.name then
      throw (.malformedSort sort.name)
    return (⟨.verbatim sort.name, sort.direction⟩, [])
  | .error e => throw e

/-- Compiles sorts on an entity, whose table may go by another name. -/
def compileSorts (ctx : Context) (mode : SortMode) (sorts : List Sorting) (subject : Subject)
    (table : Option String) : Traced SortPart := do
  let schema ← ctx.describe subject
  let table := (nonEmpty? table).getD schema.table
  let found ← sorts.mapM (sortTerm ctx mode schema table)
  let part : SortPart :=
    { terms := found.map (·.1), joins := Text.mergeNew [] (found.flatMap (·.2)) }
  if !part.terms.isEmpty then
    Traced.note (Log.fragment "SortCompiler" "sort" (part.text ctx.style) [])
  return part

end RowQuery.Compile
