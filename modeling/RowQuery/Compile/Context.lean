import RowQuery.Compile.Traced
import RowQuery.Depth
import RowQuery.Join.Registry

/-!
# Contexts

What the compilers of one request share: the settings, the schemas, the registered joins, the
language, the dialect and how deep paths may go.
-/

namespace RowQuery.Compile

open RowQuery.Schema RowQuery.Sql RowQuery.Join

/-- What a compilation reads. -/
structure Context where
  settings : Settings
  /-- The schema of a subject. -/
  schemaOf : Subject → Except Error Schema
  registry : Option Registry := none
  language : Option String := none
  dialect : Option String := none
  /-- How many relations a path may cross. -/
  maxDepth : Detail

namespace Context

/-- Describes a subject, and leaves a trace of it. -/
def describe (ctx : Context) (subject : Subject) : Traced Schema := do
  let schema ← ctx.schemaOf subject
  Traced.emit (.described schema)
  return schema

/-- Describes the entity that a relation leads to. -/
def related (ctx : Context) (f : Field) : Traced Schema :=
  match f.target with
  | some target => ctx.describe (.entity target)
  | none => throw (.noTarget f.name)

/-- Refuses a path that crosses more relations than may be. -/
def checkDepth (ctx : Context) (depth : Nat) (path : String) : Except Error Unit :=
  Depth.check ctx.maxDepth (.int depth) path

/-- The dialect that names are written in. -/
def style (ctx : Context) : Dialect := Dialect.style ctx.settings ctx.dialect

/-- The column of a field, for which the dialect has to be known. -/
def column (ctx : Context) (f : Field) (table : Option String) : Except Error Column := do
  let _ ← Dialect.resolve ctx.settings ctx.dialect
  return { table, name := f.column }

/-- The configuration that is registered for a relation below the registered path `walked`, which is
    none where joins do not reach. -/
def registered? (ctx : Context) (walked : Option String) (name : String) :
    Option (String × Config) := do
  let walked ← walked
  let registry ← ctx.registry
  let config ← registry.get? (walked ++ name)
  return (walked ++ name, config)

end Context

end RowQuery.Compile
