import RowQuery.Detail.Use
import RowQuery.Whole

/-!
# Settings

The ten settings, their defaults, and how they are read from an environment. What is read from an
environment is checked. A setting can also be assigned, and then it takes any value; whether the value
is fit is seen where it is used.
-/

namespace RowQuery

/-- The settings of the compiler. -/
structure Settings where
  logLevel : Detail := .text "INFO"
  dialect : Detail := .text "mysql"
  defaultLanguage : Detail := .text "en-US"
  /-- The language code that stands for all languages. -/
  allLanguages : Detail := .text "all"
  primaryKey : Detail := .text "ID"
  foreignKeySuffix : Detail := .text "ID"
  polymorphicTypeSuffix : Detail := .text "Type"
  maxRelationDepth : Detail := .int 8
  strictSort : Detail := .bool true
  defaultJoinType : Detail := .text "LEFT JOIN"
  deriving DecidableEq, Repr

namespace Settings

/-- The name of the key of every table. -/
def keyName (s : Settings) : Except Error String := s.primaryKey.quotable

/-- The name of a column that leads to a row of what `stem` names. -/
def keyColumn (s : Settings) (stem : Detail) : Except Error String := stem.append s.foreignKeySuffix

/-- The name of a column that says of which table the row is that a polymorphic relation leads to. -/
def typeColumn (s : Settings) (stem : Detail) : Except Error String :=
  stem.append s.polymorphicTypeSuffix

/-- The default join type; the setting may name none. -/
def joinType (s : Settings) : Except Error JoinType :=
  JoinType.ofDetail s.defaultJoinType

/-- The settings by name. -/
def entries (s : Settings) : List (String × Detail) :=
  [("LOG_LEVEL", s.logLevel), ("SQL_DIALECT", s.dialect), ("DEFAULT_LANG_CODE", s.defaultLanguage),
    ("ALL_LANG_CODE", s.allLanguages), ("PRIMARY_KEY_COLUMN", s.primaryKey),
    ("FOREIGN_KEY_SUFFIX", s.foreignKeySuffix),
    ("POLYMORPHIC_TYPE_SUFFIX", s.polymorphicTypeSuffix),
    ("MAX_RELATION_DEPTH", s.maxRelationDepth), ("STRICT_SORT", s.strictSort),
    ("DEFAULT_JOIN_TYPE", s.defaultJoinType)]

/-- Assigns a setting by name. -/
def assign (s : Settings) (name : String) (value : Detail) : Except Error Settings :=
  match name with
  | "LOG_LEVEL" => .ok { s with logLevel := value }
  | "SQL_DIALECT" => .ok { s with dialect := value }
  | "DEFAULT_LANG_CODE" => .ok { s with defaultLanguage := value }
  | "ALL_LANG_CODE" => .ok { s with allLanguages := value }
  | "PRIMARY_KEY_COLUMN" => .ok { s with primaryKey := value }
  | "FOREIGN_KEY_SUFFIX" => .ok { s with foreignKeySuffix := value }
  | "POLYMORPHIC_TYPE_SUFFIX" => .ok { s with polymorphicTypeSuffix := value }
  | "MAX_RELATION_DEPTH" => .ok { s with maxRelationDepth := value }
  | "STRICT_SORT" => .ok { s with strictSort := value }
  | "DEFAULT_JOIN_TYPE" => .ok { s with defaultJoinType := value }
  | _ => .error (.unknownSetting name)

/-- An environment: names and texts, in order. -/
abbrev Environment := List (String × String)

/-- The last text that a name has, whatever the case of its letters. -/
def lookup (env : Environment) (name : String) : Option String :=
  ((env.filter fun entry => Text.toSmalls entry.1 == Text.toSmalls name).getLast?).map (·.2)

/-- A text that has to be one of several. -/
def readChoice (choices : List String) (s : String) : Except Complaint String :=
  if s ∈ choices then .ok s else .error (.notOneOf choices)

/-- One setting: what the environment says, or the default. -/
def fromEnvironment {α : Type} (env : Environment) (name : String) (default : α)
    (read : String → Except Complaint α) : Checked α :=
  match lookup env name with
  | none => .ok default
  | some s => Checked.field name (read s)

/-- The settings of an environment, or all that is wrong with them. -/
def ofEnvironment (env : Environment) : Checked Settings :=
  let defaults : Settings := {}
  let setting (name : String) (default : Detail) (read : String → Except Complaint Detail) :
      Checked Detail := fromEnvironment env name default read
  let text (s : String) : Except Complaint Detail := .ok (.text s)
  let choice (choices : List String) (s : String) : Except Complaint Detail :=
    (readChoice choices s).map .text
  let checked :=
    ((setting "LOG_LEVEL" defaults.logLevel text).both
      (setting "SQL_DIALECT" defaults.dialect (choice ["mysql", "ansi"]))).both
    ((setting "DEFAULT_LANG_CODE" defaults.defaultLanguage text).both
      (setting "ALL_LANG_CODE" defaults.allLanguages text)) |>.both
    ((setting "PRIMARY_KEY_COLUMN" defaults.primaryKey text).both
      (setting "FOREIGN_KEY_SUFFIX" defaults.foreignKeySuffix text)) |>.both
    ((setting "POLYMORPHIC_TYPE_SUFFIX" defaults.polymorphicTypeSuffix text).both
      (setting "MAX_RELATION_DEPTH" defaults.maxRelationDepth fun s => (readWhole s).map .int)) |>.both
    ((setting "STRICT_SORT" defaults.strictSort fun s => (readFlag s).map .bool).both
      (setting "DEFAULT_JOIN_TYPE" defaults.defaultJoinType
        (choice (JoinType.all.map JoinType.name))))
  checked.map fun
    | (((((logLevel, dialect), defaultLanguage, allLanguages), primaryKey, foreignKeySuffix),
        polymorphicTypeSuffix, maxRelationDepth), strictSort, defaultJoinType) =>
      { logLevel, dialect, defaultLanguage, allLanguages, primaryKey, foreignKeySuffix,
        polymorphicTypeSuffix, maxRelationDepth, strictSort, defaultJoinType }

end Settings

end RowQuery
