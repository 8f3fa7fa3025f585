import RowQuery.Join.Tag
import RowQuery.Sql.Join

/-!
# Join registries

A registry keeps a configuration for each of some relation paths, in the order in which the paths were
first registered, and writes the joins of its configurations in its own dialect.
-/

namespace RowQuery.Join

open RowQuery.Schema RowQuery.Sql

/-- Registered configurations. -/
structure Registry where
  dialect : Option String := none
  entries : List (String × Config) := []
  deriving DecidableEq, Repr

namespace Registry

/-- The configuration of a path. -/
def get? (r : Registry) (path : String) : Option Config := r.entries.lookup path

/-- The registered paths. -/
def paths (r : Registry) : List String := r.entries.map (·.1)

/-- Whether a path is registered. -/
def contains (r : Registry) (path : String) : Bool := (r.get? path).isSome

/-- Whether nothing is registered. -/
def isEmpty (r : Registry) : Bool := r.entries.isEmpty

/-- The configuration of a path that has to be registered. -/
def require (r : Registry) (path : String) : Except Error Config :=
  match r.get? path with
  | some config => .ok config
  | none => .error (.joinNotFound path)

/-- Puts a configuration at the end, or in the place of the one that the path has. -/
def put (r : Registry) (path : String) (config : Config) : Registry :=
  if r.contains path then
    { r with entries := r.entries.map fun e => if e.1 == path then (path, config) else e }
  else { r with entries := r.entries ++ [(path, config)] }

/-- Registers a configuration, which has to be valid. -/
def register (r : Registry) (path : String) (config : Config) : Except Error Registry := do
  config.validate path
  return r.put path config

/-- The dialect that joins are written in. -/
def style (settings : Settings) (r : Registry) : Dialect := Dialect.style settings r.dialect

/-- The join clause of a plan and the discriminator that goes with it. -/
def clause (settings : Settings) (base : String) (config : Config) :
    Except Error (JoinClause × Option Discriminator) :=
  let type := config.joinType
  let table := config.table
  match config.plan with
  | .direct localKey foreignKey =>
    .ok ([{ type, table, left := .of base localKey, right := .of table foreignKey }], none)
  | .pivot pivot localKey foreignKey => do
    let key ← settings.keyName
    return ([{ type, table := pivot, left := .of base key, right := .of pivot localKey },
      { type, table, left := .of pivot foreignKey, right := .of table key }], none)
  | .polymorphic id typeColumn value => do
    let key ← settings.keyName
    return ([{ type, table, left := .of base key, right := .of table id }],
      some { column := .of table typeColumn, value })

/-- Puts a discriminator into the condition of the last table of a clause. -/
def inline (clause : JoinClause) : Option Discriminator → JoinClause
  | none => clause
  | some x =>
    clause.dropLast ++ (clause.getLast?.map fun j => { j with discriminator := some x }).toList

/-- The join of a configuration, seen from a table. The discriminator is given apart, unless it is
    to stand in the clause. The configuration has to be valid, and the dialect known. -/
def join (settings : Settings) (r : Registry) (base : String) (config : Config) (inlined : Bool) :
    Except Error (JoinClause × Option Discriminator) := do
  config.validate ""
  let _ ← Dialect.resolve settings r.dialect
  let (clause, discriminator) ← clause settings base config
  return if inlined then (inline clause discriminator, none) else (clause, discriminator)

/-- The joins of several paths, and their discriminators; none of them repeats. -/
def joins (settings : Settings) (r : Registry) (base : String) (paths : List String)
    (inlined : Bool) : Except Error (List JoinClause × List Discriminator) := do
  let found ← paths.mapM fun path => do join settings r base (← r.require path) inlined
  return (Text.mergeNew [] (found.map (·.1)), Text.mergeNew [] (found.filterMap (·.2)))

/-- The registry of some relations of an entity, or of all of them if none are named: a relation with
    a join tag is joined as the tag says, any other by its own declaration. -/
def ofSchema (settings : Settings) (dialect : Option String) (schema : Schema)
    (preloads : List String) : Except Error Registry := do
  let fields ← if preloads.isEmpty then pure (schema.fields.filter (·.isRelation))
    else preloads.mapM fun name => schema.field name ""
  fields.foldlM (fun r f => do
    let config ← match nonEmpty? f.join with
      | some tag => Config.ofTag settings tag (some f) (some schema.table)
      | none => Config.ofField settings f schema.table none
    r.register f.name config) { dialect }

/-- The registry of some relations by convention alone: the table is named for the relation. -/
def ofPreloads (settings : Settings) (dialect : Option String) (preloads : List String) :
    Except Error Registry :=
  preloads.foldlM (fun r (name : String) => do
    let foreignKey ← settings.keyColumn (.text name)
    let config ← Config.assemble settings .oneToMany (some name) (some .left)
      (ownKey settings .oneToMany { foreignKey })
    r.register name config) { dialect }

end Registry

end RowQuery.Join
