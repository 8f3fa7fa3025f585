import RowQuery.Join.Config

/-!
# Join tags

A tag is a short text for a configuration: the relationship, then pairs of a key and a text, such as
`many2many,table:Tag,through:UserTag`. What the tag leaves out is filled in from the field that
carries it and from the naming conventions.
-/

namespace RowQuery.Join

open RowQuery.Schema RowQuery.Text

/-- The words for the relationships; their case does not matter. -/
def relationshipWords : List (String × RelationType) :=
  [("one2one", .oneToOne), ("onetoone", .oneToOne), ("one2many", .oneToMany),
    ("onetomany", .oneToMany), ("many2many", .manyToMany), ("manytomany", .manyToMany),
    ("polymorphic", .polymorphic)]

/-- The words for the keys. -/
def keyWords : List (String × JoinKey) :=
  [("local_key", .localKey), ("foreign_key", .foreignKey), ("through", .pivotTable),
    ("pivot_table", .pivotTable), ("pivot_local_key", .pivotLocalKey),
    ("local_key_through", .pivotLocalKey), ("pivot_foreign_key", .pivotForeignKey),
    ("foreign_key_through", .pivotForeignKey), ("id", .polymorphicId),
    ("polymorphic_id", .polymorphicId), ("type", .polymorphicType),
    ("polymorphic_type", .polymorphicType), ("value", .polymorphicValue),
    ("polymorphic_value", .polymorphicValue)]

/-- The words for the join types; their case does not matter. -/
def joinTypeWords : List (String × JoinType) :=
  [("INNER", .inner), ("INNER_JOIN", .inner), ("RIGHT", .right), ("RIGHT_JOIN", .right),
    ("LEFT", .left), ("LEFT_JOIN", .left)]

/-- What the pairs of a tag say. -/
structure TagParts where
  table : Option String := none
  joinType : Option JoinType := none
  keys : Keys := {}
  deriving DecidableEq, Repr

/-- Takes in one pair. A word that is not known is passed over, and so is a part without a colon; a
    join type that is not known is a left join. -/
def TagParts.add (parts : TagParts) (part : String) : TagParts :=
  match cut? ':' part with
  | none => parts
  | some (word, text) =>
    let word := trim word
    let text := trim text
    if word == "join_type" then
      { parts with joinType := some ((joinTypeWords.lookup (toCapitals text)).getD .left) }
    else if word == "table" then { parts with table := some text }
    else match keyWords.lookup word with
      | some key => { parts with keys := parts.keys.set key text }
      | none => parts

/-- The keys by convention where a tag leaves them out, the key of the table itself apart. -/
def conventionalKeys (settings : Settings) (type : RelationType) (table : String)
    (field : Option Field) (base : Option String) (keys : Keys) : Except Error Keys :=
  match type.group with
  | .direct =>
    match field with
    | some f => return keys.setDefault .foreignKey (← settings.keyColumn f.name)
    | none => return keys
  | .pivot => do
    let keys ← match nonEmpty? base with
      | some base => pure (keys.setDefault .pivotLocalKey (← settings.keyColumn base))
      | none => pure keys
    if table == "" then return keys
    else return keys.setDefault .pivotForeignKey (← settings.keyColumn table)
  | .polymorphic => do
    let keys ← match nonEmpty? (field.bind (·.polymorphic)) with
      | some stem =>
        pure ((keys.setDefault .polymorphicId (← settings.keyColumn stem)).setDefault
          .polymorphicType (← settings.typeColumn stem))
      | none => pure keys
    return match nonEmpty? base with
      | some base => keys.setDefault .polymorphicValue base
      | none => keys

/-- The keys with that of the table itself where a direct relationship leaves it out. -/
def ownKey (settings : Settings) (type : RelationType) (keys : Keys) : Checked Keys :=
  if type.group = .direct && keys.localKey.isNone then
    (Checked.field JoinKey.localKey.name (readOptionalText (some settings.primaryKey))).map fun key =>
      { keys with localKey := key }
  else .ok keys

/-- Reads a tag, on a field or without one, seen from a table or from none. -/
def Config.ofTag (settings : Settings) (tag : String) (field : Option Field) (base : Option String) :
    Except Error Config :=
  match ((split ',' tag).map trim).filter (· != "") with
  | [] => .error (.emptyJoinTag tag)
  | word :: pairs =>
    match relationshipWords.lookup (toSmalls word) with
    | none => .error (.unknownRelationship word tag)
    | some type => do
      let parts := pairs.foldl TagParts.add {}
      let table := ((nonEmpty? parts.table <|> nonEmpty? (field.bind (·.targetTable)))).getD ""
      let keys ← conventionalKeys settings type table field base parts.keys
      Config.assemble settings type (some table) parts.joinType (ownKey settings type keys)

end RowQuery.Join
