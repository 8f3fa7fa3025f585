import RowQuery.Error
import RowQuery.Path

/-!
# Filters

A filter compares the field at a path with a value. It is written as path, operator and value
without anything between them, and several filters are joined by commas.
-/

namespace RowQuery

open RowQuery.Text

/-- A comparison asked for by a request. -/
structure Filter where
  name : String
  operation : Operation
  value : String
  deriving DecidableEq, Repr

namespace Filter

/-- The characters a segment of a path may start with. -/
def isSegmentStart (c : Char) : Bool := c.isAlpha || c == '_'

/-- The characters a segment of a path may go on with. -/
def isSegmentChar (c : Char) : Bool := c.isAlphanum || c == '_' || c == '-'

/-- A text without the newline at its end, if it has one. -/
def dropFinalNewline (cs : List Char) : List Char :=
  if cs.getLast? = some '\n' then cs.dropLast else cs

/-- Whether a segment is well formed. One newline may stand at its end. -/
def isSegment (s : String) : Bool :=
  match dropFinalNewline s.toList with
  | [] => false
  | c :: cs => isSegmentStart c && cs.all isSegmentChar

/-- Whether all segments of a dotted path are well formed. -/
def isPathText (s : String) : Bool := (Path.ofText s).segments.all isSegment

/-- A name that has to be a well-formed path. -/
def checkName (name : String) : Except Complaint String :=
  if isPathText name then .ok name else .error (.notAPath name)

/-- A value that has to have a character. -/
def checkValue (value : String) : Except Complaint String :=
  if value == "" then .error .tooShort else .ok value

/-- A filter that a caller has filled in; each part may be missing. -/
structure Draft where
  name : Option Detail := none
  operation : Option Detail := none
  value : Option Detail := none
  deriving DecidableEq, Repr

/-- The filter that a draft makes. -/
def ofDraft (d : Draft) : Checked Filter :=
  let checked :=
    (Checked.field "name" (given d.name >>= readText >>= checkName)).both
    ((Checked.field "operation"
      (given d.operation >>= chosen (Operation.all.map Operation.name) Operation.ofName?)).both
    (Checked.field "value" (given d.value >>= readText >>= checkValue)))
  checked.map fun (name, operation, value) => { name, operation, value }

/-- The path that is compared. -/
def path (f : Filter) : Path := .ofText f.name

/-- The raw values that are compared with. -/
def rawValues (f : Filter) : List String := f.operation.elements f.value

/-- Whether the filter asks for a missing value, or for one that is not missing. -/
def isNullTest (f : Filter) : Bool :=
  (f.operation = .equal || f.operation = .notEqual) && isNullWord f.value

/-- The written form of a filter. -/
def text (f : Filter) : String := f.name ++ String.ofList f.operation.token ++ f.value

/-- The first run of operator characters, of which at most two count; nothing if there is none. -/
def scanOperator : List Char → List Char
  | [] => []
  | c :: cs =>
    if Operation.isTokenChar c then c :: (cs.head?.filter Operation.isTokenChar).toList
    else scanOperator cs

/-- Reads one filter. The name stands before the first place where the operator is found. -/
def parse (s : String) : Except Error Filter :=
  let cs := trimChars s.toList
  let param := String.ofList cs
  if cs.length < 3 then .error (.shortFilter param)
  else
    let operator := scanOperator cs
    match Operation.ofToken? operator with
    | none => .error (.unknownOperator param (String.ofList operator))
    | some operation =>
      let (before, after) := cutAt operator cs
      let name := String.ofList (trimChars before)
      let value := String.ofList (trimChars after)
      if name == "" || value == "" then .error (.incompleteFilter param)
      else
        match checkName name with
        | .error complaint => .error (.malformedFilter param complaint)
        | .ok name => .ok { name, operation, value }

/-- Reads filters that are joined by commas; blank parts are passed over. -/
def parseAll (s : String) : Except Error (List Filter) :=
  ((split ',' s).filter fun part => !allBlank part).mapM parse

/-- Filters as a caller gives them: written, or filled in. -/
inductive Source where
  | text (s : String)
  | drafts (ds : List Draft)
  deriving DecidableEq, Repr

/-- The filters that a caller gives. -/
def Source.read : Source → Except Error (List Filter)
  | .text s => parseAll s
  | .drafts ds => ds.mapM fun d => (ofDraft d).mapError .invalid

end Filter

end RowQuery
