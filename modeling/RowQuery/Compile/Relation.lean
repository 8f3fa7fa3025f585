import RowQuery.Compile.Context

/-!
# Relations as subselects

A condition on the rows that a relation leads to becomes a condition on the rows it starts from. The
three kinds of relations have three frames around the inner condition.
-/

namespace RowQuery.Compile

open RowQuery.Schema RowQuery.Sql

/-- A direct relation: the row's foreign key is the key of a related row. -/
def directFrames (outer foreignKey related key : String) : List Frame :=
  [.select (.of outer foreignKey) (.of related key) related]

/-- A relation through a pivot table, whose columns lead to the outer table and to the related one. The
    columns of the inner tables are not qualified, and the key is not quoted. -/
def pivotFrames (outer toOuter pivot toRelated related key : String) : List Frame :=
  [.select { table := some outer, name := key, bare := true } { table := none, name := toOuter } pivot,
    .select { table := none, name := toRelated } { table := none, name := key, bare := true } related]

/-- A polymorphic relation: a related row refers to the row by its key and to its table by name. -/
def polymorphicFrames (outer related key idColumn typeColumn : String) : List Frame :=
  let outerKey := Column.of outer key
  let id := Column.of related idColumn
  [.select outerKey id related, .also (.hasText (.of related typeColumn) outer),
    .also (.sameColumn id outerKey)]

/-- The frames around a condition on the rows of `related`, for rows of `outer`. The dialect has to be
    known, and the settings have to name what the frames need. -/
def relationFrames (settings : Settings) (dialect : Option String) (f : Field)
    (outer related : String) : Except Error (List Frame) :=
  match f.relation with
  | .direct => do
    let _ ← Dialect.resolve settings dialect
    return directFrames outer (f.foreignColumn settings) related (← settings.keyName)
  | .manyToMany => do
    let toOuter ← settings.keyColumn outer
    let _ ← Dialect.resolve settings dialect
    let toRelated ← settings.keyColumn related
    let pivot ← (Detail.ofText? f.manyToMany).quotable
    return pivotFrames outer toOuter pivot toRelated related settings.primaryKey.plain
  | .polymorphic => do
    let _ ← Dialect.resolve settings dialect
    let key ← settings.keyName
    let stem := Detail.ofText? f.polymorphic
    return polymorphicFrames outer related key (← settings.keyColumn stem) (← settings.typeColumn stem)
  | .none => .error (.notARelation f.name)

/-- The subselect of a relation around a condition that is given as text. -/
def relationText (settings : Settings) (dialect : Option String) (f : Field)
    (outer related inner : String) : Except Error String := do
  let frames ← relationFrames settings dialect f outer related
  return Token.print (Frame.nestTokens (Dialect.style settings dialect) frames [.word inner])

end RowQuery.Compile
