import RowQuery.Compile.Condition
import RowQuery.Schema.Field

/-!
# Translated columns

A translated column holds a text for each of several languages. In a given language it is read as the
text of that language; where the code for all languages is asked for, it is read as it is.
-/

namespace RowQuery.Compile

open RowQuery.Schema RowQuery.Sql

/-- What translated columns are read with. -/
structure Localizer where
  settings : Settings
  language : Option String := none
  dialect : Option String := none

namespace Localizer

/-- The dialect that names are written in. -/
def style (tr : Localizer) : Dialect := Dialect.style tr.settings tr.dialect

/-- Whether a language is the code for all. -/
def isAll (tr : Localizer) (language : Detail) : Bool := language == tr.settings.allLanguages

/-- The column of a field, for which the dialect has to be known. -/
def column (tr : Localizer) (f : Field) (table : Option String) : Except Error Column := do
  let _ ← Dialect.resolve tr.settings tr.dialect
  return { table, name := f.column }

/-- The localizer's own language, null if it has none. -/
def ownLanguage (tr : Localizer) : Detail := .ofText? tr.language

/-- The language that is read: the one asked for, or the localizer's own. -/
def languageOr (tr : Localizer) (language : Detail) : Detail :=
  if language == .null then tr.ownLanguage else language

/-- The expression of a field: the text of the language if it is translated and one is read. -/
def expr (tr : Localizer) (f : Field) (table : Option String) (language : Detail) :
    Except Error Expr := do
  let c ← tr.column f table
  let language := tr.languageOr language
  if f.translated && language.isTrue && !tr.isAll language then
    return .language c (← language.quotable)
  return .column c

/-- The expression that rows are sorted by: over all languages, the text of the default one. -/
def sortExpr (tr : Localizer) (f : Field) (table : Option String) (language : Detail) :
    Except Error Expr :=
  let language := tr.languageOr language
  tr.expr f table
    (if f.translated && tr.isAll language then tr.settings.defaultLanguage else language)

/-- The expression that is selected for a field. -/
def selectItem (tr : Localizer) (f : Field) (table : Option String) (language : Detail) :
    Except Error SelectItem := do
  return { expr := ← tr.expr f table language }

/-- What is selected for the named fields, or for all if none are named. Relations are passed over. -/
def selectList (tr : Localizer) (schema : Schema) (names : List String)
    (table : Option String) (language : Detail) : Except Error (List SelectItem) := do
  let table := (nonEmpty? table).getD schema.table
  let fields ← if names.isEmpty then pure schema.columnFields
    else names.mapM fun name => schema.field name ""
  (fields.filter fun f => !f.isRelation).mapM fun f => tr.selectItem f (some table) language

/-- The condition that some text of a translated column matches a filter. A pattern is bound as it
    is; a value that has to be equal is escaped, so that only it matches. Ranges mean nothing here. -/
def anyLanguage (tr : Localizer) (f : Field) (table : Option String) (flt : Filter) :
    Except Error Predicate := do
  let c ← tr.column f table
  let found (pattern : String) : Predicate := .anyLanguage c true pattern
  if flt.operation = .equal && isNullWord flt.value then
    return .test (.column c) .isNull
  if flt.operation = .notEqual && isNullWord flt.value then
    return .test (.column c) .isNotNull
  match flt.operation with
  | .like => return found flt.value
  | .equal => return found (escapeLike flt.value)
  | .notEqual => return .anyLanguage c false (escapeLike flt.value)
  | .oneOf | .oneOfAlt =>
    match flt.rawValues.map escapeLike with
    | [] => return .group (found "")
    | v :: vs => return .group (.anyOf (found v) (vs.map found))
  | _ => throw (.acrossLanguages flt.name flt.operation)

end Localizer

end RowQuery.Compile
