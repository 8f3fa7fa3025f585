import RowQuery.Compile.Filters

/-!
# Search terms to conditions

A search term is looked for in every field that has a search pattern, and through every relation that
has one. A field's pattern has one star, which the term takes the place of. The walk is cut short by
an error where it would come to an entity a second time, or cross more relations than may be.
-/

namespace RowQuery.Compile

open RowQuery.Schema RowQuery.Sql

/-- The alternatives that a search found, and the registered paths that they need. -/
structure SearchPart where
  alternatives : List Predicate
  paths : List String
  deriving DecidableEq, Repr

namespace SearchPart

/-- The bound values. -/
def args (p : SearchPart) : List Value := argsOf p.alternatives

/-- The tokens of the alternatives, in brackets if there are several. -/
def tokens (d : Dialect) (p : SearchPart) : List Token :=
  let all := connectedTokens d "OR" p.alternatives
  if 1 < p.alternatives.length then Token.bracketed all else all

/-- The text of the alternatives. -/
def text (d : Dialect) (p : SearchPart) : String := Token.print (p.tokens d)

/-- The alternatives of both parts. -/
def append (p q : SearchPart) : SearchPart :=
  ⟨p.alternatives ++ q.alternatives, Text.mergeNew p.paths q.paths⟩

end SearchPart

/-- A pattern with the term in the place of its first star. -/
def fillPattern (pattern term : String) : String :=
  match pattern.toList.span (· != '*') with
  | (before, _ :: after) => String.ofList (before ++ term.toList ++ after)
  | (before, []) => String.ofList before

/-- Where a search has got to. -/
structure SearchSite where
  schema : Schema
  table : String
  /-- The registered path so far with a dot behind it, or none inside a subselect. -/
  walked : Option String
  /-- The entities on the way here, this one last. -/
  chain : List String

/-- The alternative of a field that is no relation. -/
def searchColumn (ctx : Context) (term : String) (site : SearchSite) (f : Field) :
    Except Error SearchPart := do
  let lhs ← ctx.localizer.expr f (some site.table) .null
  return ⟨[.test lhs (.compare .like (.str (fillPattern (f.search.getD "") term)))], []⟩

/-- The alternatives of a relation, given the search of the entity it leads to. -/
def searchRelation (ctx : Context) (site : SearchSite) (f : Field) (related : Schema)
    (search : SearchSite → Traced SearchPart) : Traced SearchPart := do
  let chain := site.chain ++ [related.entity]
  match ctx.registered? site.walked f.name with
  | some (path, config) =>
    let inner ← search { schema := related, table := config.table, walked := some (path ++ "."), chain }
    return if inner.alternatives.isEmpty then inner
      else { inner with paths := Text.mergeNew [path] inner.paths }
  | none =>
    let inner ← search { schema := related, table := related.table, walked := none, chain }
    match inner.alternatives with
    | [] => return ⟨[], inner.paths⟩
    | p :: ps =>
      let any := Predicate.anyOf p ps
      let condition := if f.relation = .polymorphic && !ps.isEmpty then .group any else any
      let frames ← relationFrames ctx.settings ctx.dialect f site.table related.table
      return ⟨[Frame.nest frames condition], inner.paths⟩

/-- The alternatives of the searchable fields of a site, from which `budget` more relations may be
    crossed. -/
def search (ctx : Context) (term : String) : (budget : Nat) → SearchSite → Traced SearchPart
  | budget, site =>
    site.schema.searchableFields.foldlM (fun found f => do
      let here ←
        if !f.isRelation then (searchColumn ctx term site f : Traced SearchPart)
        else do
          let related ← ctx.related f
          if related.entity ∈ site.chain then
            throw (.cyclicSearch f.name (site.chain ++ [related.entity]))
          match budget with
          | 0 => throw (Depth.fault ctx.maxDepth f.name)
          | budget + 1 => searchRelation ctx site f related (search ctx term budget)
      return found.append here) ⟨[], []⟩

/-- Compiles a search on an entity, whose table may go by another name. An empty term finds nothing
    and describes nothing. -/
def compileSearch (ctx : Context) (term : String) (subject : Subject) (table : Option String) :
    Traced SearchPart := do
  if term == "" then
    return ⟨[], []⟩
  let schema ← ctx.describe subject
  let part ← search ctx term (Depth.budget ctx.maxDepth)
    { schema, table := (nonEmpty? table).getD schema.table, walked := some ""
      chain := [schema.entity] }
  if !part.alternatives.isEmpty then
    Traced.note
      (Log.fragment "SearchCompiler" "search" (part.text ctx.style) (part.args.map Value.display))
  return part

end RowQuery.Compile
