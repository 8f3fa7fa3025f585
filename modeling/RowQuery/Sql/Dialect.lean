import RowQuery.Settings
import RowQuery.Sql.Quoting

/-!
# Dialects

Dialects differ in the quotes around names and in nothing else.
-/

namespace RowQuery.Sql

/-- How names are quoted. -/
inductive Dialect where
  /-- Between backticks. -/
  | mysql
  /-- Between double quotes. -/
  | ansi
  deriving DecidableEq, Repr

namespace Dialect

/-- The quote around names. -/
def quote : Dialect → Char
  | .mysql => '\x60'
  | .ansi => '\x22'

/-- The name of a dialect. -/
def name : Dialect → String
  | .mysql => "mysql"
  | .ansi => "ansi"

/-- The dialect with a given name. -/
def ofName? (s : String) : Option Dialect := [mysql, ansi].find? (·.name == s)

/-- The name of the dialect that is used: the one asked for, or the setting if none is. -/
def nameOr (settings : Settings) (requested : Option String) : Detail :=
  match requested with
  | some s => if s == "" then settings.dialect else .text s
  | none => settings.dialect

/-- The dialect with a given name, which may not be known. -/
def ofDetail (name : Detail) : Except Error Dialect :=
  match name with
  | .text s => match ofName? s with
    | some d => .ok d
    | none => .error (.unknownDialect name)
  | .list _ | .record _ => .error (.compositeKey name)
  | _ => .error (.unknownDialect name)

/-- The dialect that is used; its name may not be known. -/
def resolve (settings : Settings) (requested : Option String) : Except Error Dialect :=
  ofDetail (nameOr settings requested)

/-- The dialect that is used, where its name is known to be known or nothing is quoted. -/
def style (settings : Settings) (requested : Option String) : Dialect :=
  match resolve settings requested with
  | .ok d => d
  | .error _ => .mysql

/-- A quoted name. -/
def quoteName (d : Dialect) (s : String) : String := enclose d.quote s

end Dialect

end RowQuery.Sql
