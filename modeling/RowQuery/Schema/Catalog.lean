import RowQuery.Schema.Field

/-!
# The catalog

Entities are declared in order; one may extend an earlier one. `Catalog.describe` derives the schema
of an entity: every field is peeled, its first tag read, and the tags held against the type.
-/

namespace RowQuery.Schema

/-- A declared field. -/
structure FieldDecl where
  name : String
  type : FieldType
  tag : Option Tag := none
  deriving Repr

/-- The type of a declared field with its tag on the outside. -/
def FieldDecl.fullType (f : FieldDecl) : FieldType :=
  match f.tag with
  | some tag => .noted f.type [.tag tag]
  | none => f.type

/-- A declared entity. -/
structure EntityDecl where
  name : String
  fields : List FieldDecl
  table : Option String := none
  parent : Option String := none
  /-- Whether the records of the entity are plain ones, which do not know their table. -/
  plain : Bool := false
  deriving Repr

/-- An entity with all its fields, those of its ancestors included. -/
structure Entity where
  name : String
  /-- The table that it or an ancestor declares. -/
  declaredTable : Option String
  fields : List (String × FieldType)
  /-- Whether a record of the entity knows its table. -/
  recordsKnowTable : Bool := true
  deriving Repr

/-- The table of an entity: the declared one, or one of the entity's name. -/
def Entity.table (e : Entity) : String := e.declaredTable.getD e.name

/-- Adds a field at the end, or in the place of the field of that name. -/
def putField (fields : List (String × FieldType)) (name : String) (type : FieldType) :
    List (String × FieldType) :=
  if fields.any (·.1 == name) then fields.map fun f => if f.1 == name then (name, type) else f
  else fields ++ [(name, type)]

/-- Everything that is declared. -/
abbrev Catalog := List Entity

namespace Catalog

/-- The entity with a given name. -/
def get? (c : Catalog) (name : String) : Option Entity := c.find? (·.name == name)

/-- Adds a declaration. Inherited fields come first; a field that is declared again keeps its place. -/
def declare (c : Catalog) (d : EntityDecl) : Catalog :=
  let parent := d.parent.bind c.get?
  let inherited := (parent.map (·.fields)).getD []
  let fields := d.fields.foldl (fun fields f => putField fields f.name f.fullType) inherited
  let declaredTable := d.table <|> parent.bind (·.declaredTable)
  let recordsKnowTable := declaredTable.isSome || (parent.elim (!d.plain) (·.recordsKnowTable))
  c ++ [{ name := d.name, declaredTable, fields, recordsKnowTable }]

/-- The catalog of some declarations. -/
def ofDecls (decls : List EntityDecl) : Catalog := decls.foldl declare []

/-- The first name among `names` that is not declared. -/
def firstUndeclared (c : Catalog) (names : List String) : Option String :=
  names.find? fun name => (c.get? name).isNone

/-- The entities that the fields of an entity refer to, in order. -/
def references (e : Entity) : List String := e.fields.flatMap fun f => f.2.references

/-- Looks for a name that is not declared, from some entities on and depth first: of each entity not
    yet visited all own references are looked at before what they lead to. Gives the name, if there
    is one, and the entities visited. Every level visits an entity that was not visited before, so
    `levels` need not exceed the number of entities. -/
def searchUndeclared (c : Catalog) :
    (levels : Nat) → (visited : List String) → (names : List String) → Option String × List String
  | 0, visited, _ => (none, visited)
  | levels + 1, visited, names =>
    names.foldl (fun (found, visited) name =>
      if found.isSome || name ∈ visited then (found, visited)
      else match c.get? name with
        | none => (some name, visited)
        | some e =>
          let own := references e
          match c.firstUndeclared own with
          | some missing => (some missing, name :: visited)
          | none => searchUndeclared c levels (name :: visited) own) (none, visited)

/-- A name that is not declared and that the entity `name` refers to, directly or through others. -/
def undeclared (c : Catalog) (name : String) : Option String :=
  (searchUndeclared c (c.length + 1) [] [name]).1

/-- What a column of a type with given notes holds. -/
def columnKind (base : FieldType) (notes : List Note) : Option ColumnKind :=
  if notes.contains (.marker .json) || notes.contains (.marker .localized) then some .json
  else if notes.contains (.marker .unsigned) then some .uint
  else match base with
    | .map _ _ => some .json
    | .scalar s => match s with
      | .bool => some .bool
      | .int | .intEnum => some .int
      | .float | .decimal => some .float
      | .string | .stringEnum | .plainEnum => some .string
      | .datetime | .date => some .time
      | .mapping => some .json
      | _ => none
    | _ => none

/-- The first tag among some notes; one that says nothing if there is none. -/
def firstTag (notes : List Note) : Tag :=
  (notes.findSome? fun
    | .tag t => some t
    | _ => none).getD {}

/-- The kind of relation that a tag makes. -/
def relationOf (tag : Tag) : RelationKind :=
  if (nonEmpty? tag.polymorphic).isSome then .polymorphic
  else if (nonEmpty? tag.manyToMany).isSome then .manyToMany
  else .direct

/-- The description of a field. -/
def describeField (c : Catalog) (entity name : String) (type : FieldType) : Except Error Field := do
  let peeled := type.peel
  let notes := peeled.notes
  let tag := firstTag notes
  let translated := notes.contains (.marker .localized)
  let column := (nonEmpty? tag.column).getD name
  if (nonEmpty? tag.polymorphic).isSome && (nonEmpty? tag.manyToMany).isSome then
    throw (.exclusiveTags entity name)
  if let some pattern := tag.search then
    if pattern.toList.count '*' != 1 then
      throw (.searchPattern entity name pattern)
  match peeled.base with
  | .entity target =>
    if translated then
      throw (.translatedRelation entity name)
    let targetTable := ((c.get? target).map Entity.table).getD target
    return {
      name, column, kind := none, relation := relationOf tag, target := some target
      targetTable := some targetTable, isList := peeled.isList, search := tag.search
      polymorphic := tag.polymorphic, manyToMany := tag.manyToMany, foreignKey := tag.foreignKey
      join := tag.join }
  | base =>
    if (nonEmpty? tag.polymorphic).isSome || (nonEmpty? tag.manyToMany).isSome ||
        (nonEmpty? tag.join).isSome then
      throw (.strayRelationTag entity name)
    return { name, column, kind := columnKind base notes, translated, search := tag.search }

/-- The schema of a declared entity. All that it refers to has to be declared. -/
def describeEntity (c : Catalog) (e : Entity) : Except Error Schema := do
  if let some missing := c.undeclared e.name then
    throw (.unresolved missing e.name)
  let fields ← e.fields.mapM fun (name, type) => describeField c e.name name type
  return { entity := e.name, table := e.table, fields }

/-- The schema of the entity with a given name. -/
def describe (c : Catalog) (name : String) : Except Error Schema :=
  match c.get? name with
  | some e => c.describeEntity e
  | none => .error (.notAnEntity name)

end Catalog

/-- What a caller may hand over where an entity is expected. -/
inductive Subject where
  | entity (name : String)
  /-- A record of an entity, all of whose fields are null. -/
  | record (name : String)
  /-- A class that is no entity. -/
  | other (className : String)
  | value (v : Detail)
  deriving Repr

namespace Subject

/-- The name of the class of a subject; a class stands for itself. -/
def className : Subject → String
  | .entity name | .record name | .other name => name
  | .value v => v.className

/-- The entity of a subject, if it is one or a record of one. -/
def entity? : Subject → Option String
  | .entity name | .record name => some name
  | .other _ | .value _ => none

/-- How a subject that is no class is shown. -/
def display (c : Catalog) : Subject → String
  | .entity name | .other name => name
  | .record name =>
    let fields := ((c.get? name).map (·.fields)).getD []
    name ++ "(" ++ ", ".intercalate (fields.map fun f => f.1 ++ "=None") ++ ")"
  | .value v => v.display

end Subject

namespace Catalog

/-- The schema of a subject that has to be an entity itself. -/
def describeExactly (c : Catalog) : Subject → Except Error Schema
  | .entity name => c.describe name
  | subject => .error (.notAnEntity (subject.display c))

/-- The field that hides the table of the records that have it. -/
def tableField : String := "table_name"

/-- The table of a subject. A class has one by its own name if it declares none; a record has the table
    of its entity if it knows it; a plain value has none. -/
def tableOf (c : Catalog) : Subject → Except Error String
  | .entity name => .ok (((c.get? name).map Entity.table).getD name)
  | .other name => .ok name
  | .record name =>
    match c.get? name with
    | some e =>
      if e.recordsKnowTable && !e.fields.any (·.1 == tableField) then .ok e.table
      else .error (.lacks name "__name__")
    | none => .error (.lacks name "__name__")
  | .value v => .error (.lacks v.className "__name__")

end Catalog

end RowQuery.Schema
