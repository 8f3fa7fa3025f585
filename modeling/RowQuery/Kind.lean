/-!
# Kinds

The kinds of columns, of relations between entities and of joins between tables.
-/

namespace RowQuery

/-- What a column holds. -/
inductive ColumnKind where
  | string
  | int
  | uint
  | float
  | bool
  | time
  | json
  deriving DecidableEq, Repr

namespace ColumnKind

/-- The name of a kind. -/
def name : ColumnKind → String
  | .string => "string"
  | .int => "int"
  | .uint => "uint"
  | .float => "float"
  | .bool => "bool"
  | .time => "time"
  | .json => "json"

/-- All kinds, in the order in which they are listed to a caller. -/
def all : List ColumnKind := [string, int, uint, float, bool, time, json]

/-- The kind with a given name. -/
def ofName? (s : String) : Option ColumnKind := all.find? (·.name == s)

end ColumnKind

/-- How a field leads to another entity. -/
inductive RelationKind where
  | none
  | direct
  | manyToMany
  | polymorphic
  deriving DecidableEq, Repr

namespace RelationKind

/-- The name of a kind. -/
def name : RelationKind → String
  | .none => "none"
  | .direct => "direct"
  | .manyToMany => "many2many"
  | .polymorphic => "polymorphic"

/-- All kinds, in the order in which they are listed to a caller. -/
def all : List RelationKind := [RelationKind.none, direct, manyToMany, polymorphic]

/-- The kind with a given name. -/
def ofName? (s : String) : Option RelationKind := all.find? (·.name == s)

end RelationKind

/-- The relationship that a registered join stands for. -/
inductive RelationType where
  | oneToOne
  | oneToMany
  | manyToMany
  | polymorphic
  deriving DecidableEq, Repr

namespace RelationType

/-- The name of a type. -/
def name : RelationType → String
  | .oneToOne => "one_to_one"
  | .oneToMany => "one_to_many"
  | .manyToMany => "many_to_many"
  | .polymorphic => "polymorphic"

/-- All types, in the order in which they are listed to a caller. -/
def all : List RelationType := [oneToOne, oneToMany, manyToMany, polymorphic]

/-- The type with a given name. -/
def ofName? (s : String) : Option RelationType := all.find? (·.name == s)

end RelationType

/-- Which rows a join keeps. -/
inductive JoinType where
  | inner
  | left
  | right
  deriving DecidableEq, Repr

namespace JoinType

/-- The SQL words. -/
def words : JoinType → List String
  | .inner => ["INNER", "JOIN"]
  | .left => ["LEFT", "JOIN"]
  | .right => ["RIGHT", "JOIN"]

/-- The name of a type: its SQL words. -/
def name (type : JoinType) : String := " ".intercalate type.words

/-- All types, in the order in which they are listed to a caller. -/
def all : List JoinType := [inner, left, right]

/-- The type with a given name. -/
def ofName? (s : String) : Option JoinType := all.find? (·.name == s)

end JoinType

/-- The keys of a join. -/
inductive JoinKey where
  | localKey
  | foreignKey
  | pivotTable
  | pivotLocalKey
  | pivotForeignKey
  | polymorphicId
  | polymorphicType
  | polymorphicValue
  deriving DecidableEq, Repr

namespace JoinKey

/-- The name of a key. -/
def name : JoinKey → String
  | .localKey => "local_key"
  | .foreignKey => "foreign_key"
  | .pivotTable => "pivot_table"
  | .pivotLocalKey => "pivot_local_key"
  | .pivotForeignKey => "pivot_foreign_key"
  | .polymorphicId => "polymorphic_id"
  | .polymorphicType => "polymorphic_type"
  | .polymorphicValue => "polymorphic_value"

end JoinKey

/-- The keys that belong together. -/
inductive KeyGroup where
  | direct
  | pivot
  | polymorphic
  deriving DecidableEq, Repr

namespace KeyGroup

/-- The name of a group. -/
def name : KeyGroup → String
  | .direct => "direct"
  | .pivot => "pivot"
  | .polymorphic => "polymorphic"

/-- All groups. -/
def all : List KeyGroup := [direct, pivot, polymorphic]

/-- The keys of a group. -/
def keys : KeyGroup → List JoinKey
  | .direct => [.localKey, .foreignKey]
  | .pivot => [.pivotTable, .pivotLocalKey, .pivotForeignKey]
  | .polymorphic => [.polymorphicId, .polymorphicType, .polymorphicValue]

end KeyGroup

/-- The group of keys that a type of relationship needs. -/
def RelationType.group : RelationType → KeyGroup
  | .oneToOne | .oneToMany => .direct
  | .manyToMany => .pivot
  | .polymorphic => .polymorphic

end RowQuery
