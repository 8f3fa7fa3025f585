import RowQuery.Schema.Catalog

/-!
# Schema caches

A cache remembers the schemas of entities, in the order in which they were first described.
-/

namespace RowQuery.Schema

/-- Remembered schemas. -/
structure Cache where
  schemas : List Schema := []
  deriving DecidableEq, Repr

namespace Cache

/-- The remembered schema of an entity. -/
def get? (cache : Cache) (entity : String) : Option Schema :=
  cache.schemas.find? (·.entity == entity)

/-- How many schemas are remembered. -/
def size (cache : Cache) : Nat := cache.schemas.length

/-- Whether nothing is remembered. -/
def isEmpty (cache : Cache) : Bool := cache.schemas.isEmpty

/-- Remembers a schema, unless there is one of its entity. -/
def insert (cache : Cache) (schema : Schema) : Cache :=
  if (cache.get? schema.entity).isSome then cache else ⟨cache.schemas ++ [schema]⟩

/-- The schema of a subject: the remembered one of its entity, or the one that is derived. -/
def describe (cache : Cache) (catalog : Catalog) (subject : Subject) : Except Error Schema :=
  match subject.entity? with
  | none => .error (.notAnEntity subject.className)
  | some name =>
    match cache.get? name with
    | some schema => .ok schema
    | none => catalog.describe name

end Cache

end RowQuery.Schema
