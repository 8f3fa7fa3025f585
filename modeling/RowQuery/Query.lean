import RowQuery.Detail.Use
import RowQuery.Filter
import RowQuery.Sorting
import RowQuery.Whole

/-!
# Queries

A query is what a request asks for: a search term, filters, sorts, the fields to select, the relations
to load along, and a page.
-/

namespace RowQuery

open RowQuery.Text

/-- A parsed request. A negative offset or limit is none. -/
structure Query where
  term : String := ""
  filters : List Filter := []
  sorts : List Sorting := []
  fields : List String := []
  preloads : List String := []
  offset : Int := -1
  limit : Int := -1
  deriving DecidableEq, Repr

namespace Query

/-- Whether the query asks for a page of the rows. -/
def isPaginated (q : Query) : Bool := 0 < q.offset || 0 < q.limit

/-- The field that names the owner of a row, unless a request says otherwise. -/
def ownerField : String := "OwnerID"

/-- The query restricted to the rows in which a field has the text of a value. The value is written first,
    and the field has to be a well-formed path. -/
def restrictTo (q : Query) (name value : Detail) : Except Error Query := do
  let text ← value.written
  match Filter.ofDraft ⟨some name, some (.text Operation.equal.name), some (.text text)⟩ with
  | .ok f => return { q with filters := q.filters ++ [f] }
  | .error problems => throw (.invalid problems)

/-- The query restricted to the rows of an owner. -/
def withOwner (q : Query) (owner : Int) (name : String) : Except Error Query :=
  q.restrictTo (.text name) (.int owner)

/-- Texts that are joined by commas, trimmed; blank ones are passed over. -/
def splitList (s : String) : List String :=
  ((split ',' s).map trim).filter (· != "")

/-- The request parameters that a query is read from. -/
structure Params where
  term : Option String := none
  fields : Option String := none
  preloads : Option String := none
  offset : Option String := none
  limit : Option String := none
  sorts : Option String := none
  filters : Option String := none
  deriving Repr

/-- The text of a parameter; a value that counts as false is none. -/
def paramText (d : Detail) : Except Error (Option String) :=
  if d.isTrue then (d.textWith "split").map some else .ok none

/-- The text of a page; of a number the integer part is taken. -/
def pageText (d : Detail) : Except Error (Option String) :=
  if !d.isTrue then .ok none
  else match d with
    | .text s => .ok (some s)
    | .int n => .ok (some (toString n))
    | .bool b => .ok (if b then some "1" else none)
    | .float x => .ok (x.integerPart?.map toString)
    | _ => .error (.noIntegerPart d)

/-- The parameters among named values. -/
def Params.ofEntries (entries : List (String × Detail)) : Except Error Params := do
  let get (name : String) : Detail := (entries.lookup name).getD .null
  let fields ← paramText (get "_fields")
  let preloads ← paramText (get "_preloads")
  let offset ← pageText (get "_offset")
  let limit ← pageText (get "_limit")
  let sorts ← paramText (get "_sort")
  let filters ← paramText (get "_filter")
  let term ← match get "_q" with
    | .text s => pure (some s)
    | other => if other.isTrue then throw (.invalid [⟨"q", .notAString⟩]) else pure none
  return { term, fields, preloads, offset, limit, sorts, filters }

/-- Reads a query. Sorts are read before filters, and a page that is no integer is none. A request
    without any of the parameters is refused. -/
def parse (p : Params) : Except Error Query := do
  let term := p.term.getD ""
  let fields := splitList (p.fields.getD "")
  let preloads := splitList (p.preloads.getD "")
  let offset := p.offset.bind Number.readLenient?
  let limit := p.limit.bind Number.readLenient?
  let sorts ← Sorting.parseAll (p.sorts.getD "")
  let filters ← Filter.parseAll (p.filters.getD "")
  if term == "" && fields.isEmpty && preloads.isEmpty && sorts.isEmpty && filters.isEmpty &&
      offset.isNone && limit.isNone then
    throw .emptyQuery
  return {
    term, filters, sorts, fields, preloads, offset := offset.getD (-1), limit := limit.getD (-1) }

/-- A query that a caller has filled in; each part may be missing. -/
structure Draft where
  term : Option Detail := none
  filters : List Filter.Draft := []
  sorts : List Sorting.Draft := []
  fields : List String := []
  preloads : List String := []
  offset : Option Detail := none
  limit : Option Detail := none
  deriving DecidableEq, Repr

/-- The query that a draft makes. -/
def ofDraft (d : Draft) : Except Error Query := do
  let filters ← (Filter.Source.drafts d.filters).read
  let sorts ← (Sorting.Source.drafts d.sorts).read
  let page (part : Option Detail) : Except Complaint Int := part.elim (.ok (-1)) readInteger
  let checked :=
    (Checked.field "q" (d.term.elim (.ok "") readText)).both
    ((Checked.field "offset" (page d.offset)).both (Checked.field "limit" (page d.limit)))
  match checked with
  | .ok (term, offset, limit) =>
    return { term, filters, sorts, fields := d.fields, preloads := d.preloads, offset, limit }
  | .error problems => throw (.invalid problems)

/-- A query as a caller gives it: the parameters of a request or a draft, and values to restrict it to,
    each with the field that has it. -/
structure Source where
  base : List (String × Detail) ⊕ Draft
  owners : List (Detail × Detail) := []

/-- The query that a caller gives. -/
def Source.read (s : Source) : Except Error Query := do
  let query ← match s.base with
    | .inl params => do parse (← Params.ofEntries params)
    | .inr draft => ofDraft draft
  s.owners.foldlM (fun q (owner, name) => q.restrictTo name owner) query

end Query

end RowQuery
