import RowQuery.Schema.Field

/-!
# Join configurations

A configuration says how the table of a relation is joined. It is valid if it has a table, all keys of
the group that its relationship needs and no others; `Config.plan` is what is left of a valid one.
-/

namespace RowQuery.Join

open RowQuery.Schema

/-- The keys of a configuration, each of which may be missing. -/
structure Keys where
  localKey : Option String := none
  foreignKey : Option String := none
  pivotTable : Option String := none
  pivotLocalKey : Option String := none
  pivotForeignKey : Option String := none
  polymorphicId : Option String := none
  polymorphicType : Option String := none
  polymorphicValue : Option String := none
  deriving DecidableEq, Repr

namespace Keys

/-- The text of a key. -/
def get (k : Keys) : JoinKey → Option String
  | .localKey => k.localKey
  | .foreignKey => k.foreignKey
  | .pivotTable => k.pivotTable
  | .pivotLocalKey => k.pivotLocalKey
  | .pivotForeignKey => k.pivotForeignKey
  | .polymorphicId => k.polymorphicId
  | .polymorphicType => k.polymorphicType
  | .polymorphicValue => k.polymorphicValue

/-- Gives a key a text. -/
def set (k : Keys) (key : JoinKey) (s : String) : Keys :=
  match key with
  | .localKey => { k with localKey := some s }
  | .foreignKey => { k with foreignKey := some s }
  | .pivotTable => { k with pivotTable := some s }
  | .pivotLocalKey => { k with pivotLocalKey := some s }
  | .pivotForeignKey => { k with pivotForeignKey := some s }
  | .polymorphicId => { k with polymorphicId := some s }
  | .polymorphicType => { k with polymorphicType := some s }
  | .polymorphicValue => { k with polymorphicValue := some s }

/-- Gives a key a text if it has none; an empty text is one. -/
def setDefault (k : Keys) (key : JoinKey) (s : String) : Keys :=
  if (k.get key).isSome then k else k.set key s

/-- Whether a key has a text that is not empty. -/
def has (k : Keys) (key : JoinKey) : Bool := (nonEmpty? (k.get key)).isSome

/-- All keys, in the order in which they are checked. -/
def all : List JoinKey := KeyGroup.all.flatMap KeyGroup.keys

/-- The keys among named values. A key whose value is null is missing. -/
def ofEntries (entries : List (JoinKey × Detail)) : Checked Keys :=
  all.foldl (fun keys key =>
    (keys.both (Checked.field key.name (readOptionalText (entries.lookup key)))).map fun
      | (keys, some s) => keys.set key s
      | (keys, none) => keys) (.ok {})

end Keys

/-- How a table is joined. -/
structure Config where
  type : RelationType
  table : String
  joinType : JoinType
  keys : Keys
  deriving DecidableEq, Repr

/-- A configuration that is complete, by the group of its keys. -/
inductive Plan where
  | direct (localKey foreignKey : String)
  | pivot (table localKey foreignKey : String)
  | polymorphic (id type value : String)
  deriving DecidableEq, Repr

namespace Config

/-- A configuration that a caller has filled in; each part may be missing. -/
structure Draft where
  type : Option Detail := none
  table : Option Detail := none
  joinType : Option Detail := none
  keys : List (JoinKey × Detail) := []
  deriving DecidableEq, Repr

/-- The configuration that a draft makes. The join type is the setting if it is missing; a setting
    that names none is reported before anything else. -/
def ofDraft (settings : Settings) (d : Draft) : Except Error Config := do
  let joinType : Except Complaint JoinType ← match d.joinType with
    | none => (settings.joinType).map Except.ok
    | some s => pure (chosen (JoinType.all.map JoinType.name) JoinType.ofName? s)
  let checked :=
    (Checked.field "type"
      (given d.type >>= chosen (RelationType.all.map RelationType.name) RelationType.ofName?)).both
    ((Checked.field "table" (given d.table >>= readText)).both
    ((Checked.field "join_type" joinType).both (Keys.ofEntries d.keys)))
  match checked with
  | .ok (type, table, joinType, keys) => return { type, table, joinType, keys }
  | .error problems => throw (.invalid problems)

/-- The configuration of a type with a table and keys that are still to be checked. The join type is
    the setting if none is given. -/
def assemble (settings : Settings) (type : RelationType) (table : Option String)
    (joinType : Option JoinType) (keys : Checked Keys) : Except Error Config := do
  let joinType ← match joinType with
    | some joinType => pure joinType
    | none => settings.joinType
  let table : Checked String := match table with
    | some table => .ok table
    | none => .error [⟨"table", .notAString⟩]
  match table.both keys with
  | .ok (table, keys) => return { type, table, joinType, keys }
  | .error problems => throw (.invalid problems)

/-- The group of keys that the configuration needs. -/
def group (c : Config) : KeyGroup := c.type.group

/-- The keys that are needed and missing. -/
def missing (c : Config) : List JoinKey := c.group.keys.filter fun key => !c.keys.has key

/-- The keys that are there and not needed. -/
def stray (c : Config) : List JoinKey :=
  ((KeyGroup.all.filter (· != c.group)).flatMap KeyGroup.keys).filter c.keys.has

/-- Checks that the table and the keys needed are there, and no others. -/
def validate (c : Config) (path : String) : Except Error Unit :=
  if c.table == "" then .error (.joinWithoutTable path)
  else if !c.missing.isEmpty then .error (.missingKeys c.type path c.missing)
  else if !c.stray.isEmpty then .error (.strayKeys c.type path c.stray)
  else .ok ()

/-- The keys of the configuration's group. -/
def plan (c : Config) : Plan :=
  let get (key : JoinKey) : String := (c.keys.get key).getD ""
  match c.group with
  | .direct => .direct (get .localKey) (get .foreignKey)
  | .pivot => .pivot (get .pivotTable) (get .pivotLocalKey) (get .pivotForeignKey)
  | .polymorphic => .polymorphic (get .polymorphicId) (get .polymorphicType) (get .polymorphicValue)

/-- The configuration that a relation has by its own declaration, seen from a table. -/
def ofField (settings : Settings) (f : Field) (base : String) (joinType : Option JoinType) :
    Except Error Config :=
  match f.relation with
  | .direct =>
    assemble settings (if f.isList then .oneToMany else .oneToOne) f.targetTable joinType
      ((Checked.field JoinKey.foreignKey.name (readOptionalText (some settings.primaryKey))).map
        fun key => { localKey := f.foreignColumn settings, foreignKey := key })
  | .manyToMany => do
    let pivotLocalKey ← settings.keyColumn base
    let pivotForeignKey ← settings.keyColumn (.ofText? f.targetTable)
    assemble settings .manyToMany f.targetTable joinType
      (.ok { pivotTable := f.manyToMany, pivotLocalKey, pivotForeignKey })
  | .polymorphic => do
    let polymorphicId ← settings.keyColumn (.ofText? f.polymorphic)
    let polymorphicType ← settings.typeColumn (.ofText? f.polymorphic)
    assemble settings .polymorphic f.targetTable joinType
      (.ok { polymorphicId, polymorphicType, polymorphicValue := base })
  | .none => .error (.notJoinable f.name)

end Config

end RowQuery.Join
