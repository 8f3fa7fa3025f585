import RowQuery.Schema.FieldType
import RowQuery.Settings

/-!
# Fields and schemas

A field describes one field of an entity for the compilers: its column, what it holds, and where it
leads if it is a relation. A schema is the table and the fields of an entity.
-/

namespace RowQuery.Schema

/-- One field of an entity. -/
structure Field where
  name : String
  column : String
  kind : Option ColumnKind := some .string
  relation : RelationKind := .none
  /-- The entity that a relation leads to. -/
  target : Option String := none
  targetTable : Option String := none
  isList : Bool := false
  translated : Bool := false
  search : Option String := none
  polymorphic : Option String := none
  manyToMany : Option String := none
  foreignKey : Option String := none
  join : Option String := none
  deriving DecidableEq, Repr

/-- A text that is there and not empty. -/
def nonEmpty? (s : Option String) : Option String := s.filter (· != "")

namespace Field

/-- Whether the field leads to another entity. -/
def isRelation (f : Field) : Bool := f.relation != .none

/-- Whether the field is a JSON column that is not translated. -/
def isJson (f : Field) : Bool := f.kind == some .json && !f.translated

/-- Whether a search looks at the field. -/
def searchable (f : Field) : Bool := f.search.isSome

/-- The column that leads to a direct relation: the one declared, or the field's name with the
    suffix for foreign keys. -/
def foreignColumn (settings : Settings) (f : Field) : String :=
  (nonEmpty? f.foreignKey).getD (f.name ++ settings.foreignKeySuffix.plain)

/-- A field that has to be there, because a part of it is needed. -/
def require (part : String) : Option Field → Except Error Field
  | some f => .ok f
  | none => .error (.lacks Detail.null.className part)

/-- A field that a caller has filled in; each part may be missing. -/
structure Draft where
  name : Option Detail := none
  column : Option Detail := none
  kind : Option Detail := none
  relation : Option Detail := none
  targetTable : Option Detail := none
  isList : Option Detail := none
  translated : Option Detail := none
  search : Option Detail := none
  polymorphic : Option Detail := none
  manyToMany : Option Detail := none
  foreignKey : Option Detail := none
  join : Option Detail := none
  deriving DecidableEq, Repr

/-- The kind in a draft: strings if it is missing, none if it is null. -/
def draftKind : Option Detail → Except Complaint (Option ColumnKind)
  | none => .ok (some .string)
  | some .null => .ok none
  | some d => (chosen (ColumnKind.all.map ColumnKind.name) ColumnKind.ofName? d).map some

/-- The relation in a draft: none if it is missing. -/
def draftRelation : Option Detail → Except Complaint RelationKind
  | none => .ok .none
  | some d => chosen (RelationKind.all.map RelationKind.name) RelationKind.ofName? d

/-- A truth value in a draft: false if it is missing. -/
def draftFlag : Option Detail → Except Complaint Bool
  | none => .ok false
  | some d => readBoolean d

/-- The field that a draft makes. It leads to no entity, whatever its relation is. -/
def ofDraft (d : Draft) : Checked Field :=
  let text (name : String) (part : Option Detail) : Checked String :=
    Checked.field name (given part >>= readText)
  let text? (name : String) (part : Option Detail) : Checked (Option String) :=
    Checked.field name (readOptionalText part)
  let flag (name : String) (part : Option Detail) : Checked Bool := Checked.field name (draftFlag part)
  let checked :=
    ((text "name" d.name).both (text "column" d.column)).both
    ((Checked.field "kind" (draftKind d.kind)).both
      (Checked.field "relation" (draftRelation d.relation))) |>.both
    ((text? "target_table" d.targetTable).both (flag "is_list" d.isList)) |>.both
    ((flag "translated" d.translated).both (text? "search" d.search)) |>.both
    ((text? "polymorphic" d.polymorphic).both (text? "many2many" d.manyToMany)) |>.both
    ((text? "foreign_key" d.foreignKey).both (text? "join" d.join))
  checked.map fun
    | ((((((name, column), kind, relation), targetTable, isList), translated, search), polymorphic,
        manyToMany), foreignKey, join) =>
      { name, column, kind, relation, targetTable, isList, translated, search, polymorphic,
        manyToMany, foreignKey, join }

end Field

end RowQuery.Schema

namespace RowQuery

/-- The table and the fields of an entity. -/
structure Schema where
  entity : String
  table : String
  fields : List Schema.Field
  deriving DecidableEq, Repr

namespace Schema

/-- The field with a given name. -/
def get? (s : Schema) (name : String) : Option Field := s.fields.find? (·.name == name)

/-- The field with a given name, or an error that shows the path on which it was looked for. -/
def field (s : Schema) (name path : String) : Except Error Field :=
  match s.get? name with
  | some f => .ok f
  | none => .error (.fieldNotFound s.entity name (if path == "" then name else path))

/-- The fields that a search looks at. -/
def searchableFields (s : Schema) : List Field := s.fields.filter (·.searchable)

/-- The fields that are columns of the table. -/
def columnFields (s : Schema) : List Field := s.fields.filter fun f => !f.isRelation

end Schema

end RowQuery
