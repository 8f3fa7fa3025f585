/-!
# Field types

The types that fields are declared with, and the notes (tags and markers) that go along with them.
Types can be written in several ways: notes on notes are one row of notes, and a union is the set of
its members, whichever unions they come from. `normalize` gives the plain form. `peel` takes notes,
optional and collection wrappers off until something else is reached, which decides the column.
-/

namespace RowQuery.Schema

/-- The types without parts. `mapping` and `sequence` are without parameters; `listing` is the type of
    lists that is left without one. -/
inductive Scalar where
  | string
  | int
  | float
  | bool
  | datetime
  | date
  | time
  | duration
  | decimal
  | bytes
  | mapping
  | sequence
  | listing
  | any
  | uuid
  | null
  | stringEnum
  | intEnum
  | plainEnum
  deriving DecidableEq, Repr

/-- What is said about a field beside its type. -/
structure Tag where
  /-- The name of the column, if it is not the field's. -/
  column : Option String := none
  /-- The stem of the columns that lead back to the owner of a polymorphic relation. -/
  polymorphic : Option String := none
  /-- The pivot table of a many-to-many relation. -/
  manyToMany : Option String := none
  /-- A pattern with one star that the search term takes the place of. -/
  search : Option String := none
  /-- How the relation is joined. -/
  join : Option String := none
  /-- The column that leads to a direct relation. -/
  foreignKey : Option String := none
  deriving DecidableEq, Repr

/-- A mark on a type. -/
inductive Marker where
  | unsigned
  | json
  | localized
  deriving DecidableEq, Repr

/-- A tag, a mark, or the bound of numbers that are not below zero. -/
inductive Note where
  | tag (t : Tag)
  | marker (m : Marker)
  | notBelowZero
  deriving DecidableEq, Repr

/-- The kinds of collections. -/
inductive Collection where
  | list
  | set
  | frozenSet
  | tuple
  deriving DecidableEq, Repr

/-- The type of a field. -/
inductive FieldType where
  | scalar (s : Scalar)
  | entity (name : String)
  | noted (t : FieldType) (notes : List Note)
  | union (members : List FieldType)
  | collection (kind : Collection) (items : List FieldType)
  | map (key value : FieldType)
  deriving Inhabited, Repr

namespace FieldType

/-- A type or null. -/
def optional (t : FieldType) : FieldType := .union [t, .scalar .null]

/-- An integer that is not negative. -/
def unsigned : FieldType := .noted (.scalar .int) [.notBelowZero, .marker .unsigned]

/-- A free JSON object. -/
def json : FieldType := .noted (.map (.scalar .string) (.scalar .any)) [.marker .json]

/-- A map from languages to texts. -/
def localizedText : FieldType := .noted (.map (.scalar .string) (.scalar .string)) [.marker .localized]

mutual

/-- Whether two types in plain form are the same. The order of the members of a union does not
    matter. -/
def same : FieldType → FieldType → Bool
  | .scalar s, .scalar t => s == t
  | .entity a, .entity b => a == b
  | .noted s ms, .noted t ns => s.same t && ms == ns
  | .union ss, .union ts => ss.length == ts.length && sameMembers ss ts
  | .collection j ss, .collection k ts => j == k && sameItems ss ts
  | .map s s', .map t t' => s.same t && s'.same t'
  | _, _ => false

/-- Whether every one of some types is the same as one of others. -/
def sameMembers : List FieldType → List FieldType → Bool
  | [], _ => true
  | s :: ss, ts => ts.any (fun t => s.same t) && sameMembers ss ts

/-- Whether two lists of types are the same, one by one. -/
def sameItems : List FieldType → List FieldType → Bool
  | [], [] => true
  | s :: ss, t :: ts => s.same t && sameItems ss ts
  | _, _ => false

end

/-- Puts notes on a type, behind those that are on it already. -/
def note (t : FieldType) (notes : List Note) : FieldType :=
  match t with
  | .noted t inner => .noted t (inner ++ notes)
  | t => .noted t notes

/-- The members of a union; any other type is its only member. -/
def members : FieldType → List FieldType
  | .union members => members
  | t => [t]

/-- The types without those that are the same as an earlier one. -/
def distinct (types : List FieldType) : List FieldType :=
  types.foldl (fun seen t => if seen.any (·.same t) then seen else seen ++ [t]) []

/-- The union of types in plain form; a union of one type is that type. -/
def unite (types : List FieldType) : FieldType :=
  match distinct (types.flatMap members) with
  | [t] => t
  | members => .union members

mutual

/-- The plain form of a type. -/
def normalize : FieldType → FieldType
  | .scalar s => .scalar s
  | .entity name => .entity name
  | .noted t notes => t.normalize.note notes
  | .union members => unite (normalizeAll members)
  | .collection kind items => .collection kind (normalizeAll items)
  | .map key value => .map key.normalize value.normalize

/-- The plain forms of types. -/
def normalizeAll : List FieldType → List FieldType
  | [] => []
  | t :: ts => t.normalize :: normalizeAll ts

end

mutual

/-- The names of the entities that a type refers to, in order. -/
def references : FieldType → List String
  | .scalar _ => []
  | .entity name => [name]
  | .noted t _ => t.references
  | .union members => referencesAll members
  | .collection _ items => referencesAll items
  | .map key value => key.references ++ value.references

/-- The names of the entities that some types refer to. -/
def referencesAll : List FieldType → List String
  | [] => []
  | t :: ts => t.references ++ referencesAll ts

end

/-- What is left of a type when its wrappers are taken off. -/
structure Peeled where
  base : FieldType
  /-- The notes that were found, those further out first. -/
  notes : List Note := []
  isList : Bool := false
  deriving Repr

mutual

/-- Takes the wrappers off a type in plain form. A union is a wrapper if it has one member beside
    null, and a collection if it has an item; its first one counts. -/
def strip : FieldType → Peeled
  | .noted t notes =>
    let p := t.strip
    { p with notes := notes ++ p.notes }
  | .union members =>
    match stripMembers members with
    | [p] => p
    | _ => { base := .union members }
  | .collection kind items =>
    match stripFirst items with
    | some p => { p with isList := true }
    | none => { base := .collection kind items }
  | .scalar s => { base := .scalar s }
  | .entity name => { base := .entity name }
  | .map key value => { base := .map key value }

/-- What is left of the members of a union beside null. -/
def stripMembers : List FieldType → List Peeled
  | [] => []
  | .scalar .null :: ts => stripMembers ts
  | t :: ts => t.strip :: stripMembers ts

/-- What is left of the first item of a collection. -/
def stripFirst : List FieldType → Option Peeled
  | [] => none
  | t :: _ => some t.strip

end

/-- Takes the wrappers off a type. -/
def peel (t : FieldType) : Peeled := t.normalize.strip

end FieldType

end RowQuery.Schema
