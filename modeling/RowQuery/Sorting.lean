import RowQuery.Error
import RowQuery.Path

/-!
# Sorts

A sort orders rows by the field at a path. A minus in front of the path turns the order round; a plus
or a space in front of it is dropped.
-/

namespace RowQuery

open RowQuery.Text

/-- An ordering asked for by a request. -/
structure Sorting where
  name : String
  direction : Direction := .ascending
  deriving DecidableEq, Repr

namespace Sorting

/-- A sort that a caller has filled in; each part may be missing. -/
structure Draft where
  name : Option Detail := none
  direction : Option Detail := none
  deriving DecidableEq, Repr

/-- The sort that a draft makes; the direction is ascending if it is missing. -/
def ofDraft (d : Draft) : Checked Sorting :=
  let nonEmpty (s : String) : Except Complaint String := if s == "" then .error .tooShort else .ok s
  let way : Except Complaint Direction := match d.direction with
    | none => .ok .ascending
    | some s => chosen ["ASC", "DESC"] Direction.ofName? s
  ((Checked.field "name" (given d.name >>= readText >>= nonEmpty)).both (Checked.field "direction" way)).map
    fun (name, direction) => { name, direction }

/-- The path that is sorted by. -/
def path (s : Sorting) : Path := .ofText s.name

/-- The written form of a sort in an answer. -/
def text (s : Sorting) : String := s.name ++ " " ++ s.direction.word

/-- The direction in front of a path, and what follows it. -/
def takeDirection : List Char → Direction × List Char
  | '-' :: cs => (.descending, cs)
  | '+' :: cs => (.ascending, cs)
  | ' ' :: cs => (.ascending, cs)
  | cs => (.ascending, cs)

/-- Reads one sort. -/
def parse (s : String) : Except Error Sorting :=
  let (direction, rest) := takeDirection (trimEndChars s.toList)
  let name := String.ofList (trimChars rest)
  if name == "" then .error (.namelessSort (String.ofList rest)) else .ok { name, direction }

/-- Reads sorts that are joined by commas; blank parts are passed over. -/
def parseAll (s : String) : Except Error (List Sorting) :=
  ((split ',' s).filter fun part => !allBlank part).mapM parse

/-- Sorts as a caller gives them: written, or filled in. -/
inductive Source where
  | text (s : String)
  | drafts (ds : List Draft)
  deriving DecidableEq, Repr

/-- The sorts that a caller gives. -/
def Source.read : Source → Except Error (List Sorting)
  | .text s => parseAll s
  | .drafts ds => ds.mapM fun d => (ofDraft d).mapError .invalid

end Sorting

end RowQuery
